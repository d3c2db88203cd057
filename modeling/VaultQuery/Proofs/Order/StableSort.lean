/-! # Stable sorting

    To sort a list by one comparison after the other is to sort it by all of them at once, the
    last one counting most, because a stable sort leaves equal items in the order they had.

    * `IsStableSort`: what a stable sort does, and `IsStableSort.unique`: nothing else does it;
    * `isStableSort_mergeSort`: merge sort does it;
    * `IsStableSort.pairwise_then`: an order that held before decides among equals;
    * `IsStableSort.lex`: two sorts in a row are one by the lexicographic order. -/

namespace VaultQuery

variable {α : Type} {cmp cmp₁ cmp₂ : α → α → Ordering} {items mid out out' : List α}

/-- `out` has the items of `items` in the order of `cmp`, equal ones in the order they had. -/
structure IsStableSort (cmp : α → α → Ordering) (items out : List α) : Prop where
  perm : out.Perm items
  ordered : out.Pairwise fun a b => (cmp a b).isLE = true
  stable : ∀ a, out.filter (cmp a · == .eq) = items.filter (cmp a · == .eq)

/-- Merge sort is a stable sort. -/
theorem isStableSort_mergeSort [Std.TransCmp cmp] (items : List α) :
    IsStableSort cmp items (items.mergeSort fun a b => (cmp a b).isLE) := by
  have htrans : ∀ a b c, (cmp a b).isLE = true → (cmp b c).isLE = true →
      (cmp a c).isLE = true := fun _ _ _ => Std.TransCmp.isLE_trans
  have htotal : ∀ a b, ((cmp a b).isLE || (cmp b a).isLE) = true := by
    intro a b
    have hswap : cmp b a = (cmp a b).swap := Std.OrientedCmp.eq_swap
    rw [hswap]
    cases cmp a b <;> rfl
  have hperm := List.mergeSort_perm items fun a b => (cmp a b).isLE
  refine ⟨hperm, List.pairwise_mergeSort htrans htotal items, fun a => ?_⟩
  -- the items equal to `a` are in order already, so sorting keeps them as a sublist
  have hequal : (items.filter (cmp a · == .eq)).Pairwise fun b c => (cmp b c).isLE = true := by
    refine List.pairwise_iff_forall_sublist.mpr fun {b c} hbc => ?_
    have hb := (List.mem_filter.mp (hbc.subset (List.mem_cons_self ..))).2
    have hc := (List.mem_filter.mp (hbc.subset (List.mem_cons_of_mem _ (List.mem_cons_self ..)))).2
    rw [beq_iff_eq] at hb hc
    rw [← Std.TransCmp.congr_left hb, hc]
    rfl
  have hkept := (List.sublist_mergeSort htrans htotal hequal List.filter_sublist).filter
    (cmp a · == .eq)
  rw [List.filter_filter, List.filter_congr fun _ _ => Bool.and_self _] at hkept
  exact (hkept.eq_of_length (hperm.filter _).length_eq.symm).symm

namespace IsStableSort

/-- Where all are equal nothing moves. -/
theorem refl (items : List α) : IsStableSort (fun _ _ => .eq) items items :=
  ⟨.refl items, List.pairwise_of_forall fun _ _ => rfl, fun _ => rfl⟩

/-- Among equal items the order of before counts. -/
theorem pairwise_then [Std.ReflCmp cmp] (h : IsStableSort cmp items out) {R : α → α → Prop}
    (hitems : items.Pairwise R) :
    out.Pairwise fun a b => cmp a b = .lt ∨ cmp a b = .eq ∧ R a b := by
  refine List.pairwise_iff_forall_sublist.mpr fun {a b} hab => ?_
  have hle := List.pairwise_iff_forall_sublist.mp h.ordered hab
  cases hcmp : cmp a b with
  | lt => exact Or.inl rfl
  | gt =>
      rw [hcmp] at hle
      exact nomatch hle
  | eq =>
      refine Or.inr ⟨rfl, ?_⟩
      have hclass := hab.filter (cmp a · == .eq)
      have hboth : [a, b].filter (cmp a · == .eq) = [a, b] := by
        simp [hcmp, Std.ReflCmp.compare_self]
      rw [hboth, h.stable a] at hclass
      exact List.pairwise_iff_forall_sublist.mp hitems (hclass.trans List.filter_sublist)

/-- Sorted by the second comparison and then by the first, a list is sorted by the first and,
    among equals, by the second. -/
theorem lex [Std.ReflCmp cmp₁] (h₂ : IsStableSort cmp₂ items mid)
    (h₁ : IsStableSort cmp₁ mid out) : IsStableSort (compareLex cmp₁ cmp₂) items out where
  perm := h₁.perm.trans h₂.perm
  ordered := by
    refine (h₁.pairwise_then h₂.ordered).imp fun {a b} hab => ?_
    exact Ordering.isLE_then_iff_or.mpr hab
  stable := by
    intro a
    have hclass : ∀ l : List α, l.filter (compareLex cmp₁ cmp₂ a · == .eq)
        = (l.filter (cmp₁ a · == .eq)).filter (cmp₂ a · == .eq) := by
      intro l
      rw [List.filter_filter]
      refine List.filter_congr fun b _ => ?_
      rw [compareLex, Bool.eq_iff_iff, Bool.and_eq_true, beq_iff_eq, beq_iff_eq, beq_iff_eq,
        Ordering.then_eq_eq, and_comm]
    calc out.filter (compareLex cmp₁ cmp₂ a · == .eq)
        = (mid.filter (cmp₁ a · == .eq)).filter (cmp₂ a · == .eq) := by rw [hclass, h₁.stable]
      _ = (mid.filter (cmp₂ a · == .eq)).filter (cmp₁ a · == .eq) := by
          rw [List.filter_filter, List.filter_filter]
          exact List.filter_congr fun _ _ => Bool.and_comm _ _
      _ = items.filter (compareLex cmp₁ cmp₂ a · == .eq) := by
          rw [h₂.stable, hclass, List.filter_filter, List.filter_filter]
          exact List.filter_congr fun _ _ => Bool.and_comm _ _

/-- There is one stable sort of a list. -/
theorem unique [Std.TransCmp cmp] (h : IsStableSort cmp items out)
    (h' : IsStableSort cmp items out') : out = out' := by
  obtain ⟨hperm, hordered, hstable⟩ := h
  obtain ⟨hperm', hordered', hstable'⟩ := h'
  have hsame : out.Perm out' := hperm.trans hperm'.symm
  have hclass : ∀ a, out.filter (cmp a · == .eq) = out'.filter (cmp a · == .eq) :=
    fun a => (hstable a).trans (hstable' a).symm
  clear hperm hperm' hstable hstable'
  induction out generalizing out' with
  | nil => exact hsame.nil_eq
  | cons a rest ih =>
      obtain ⟨hfirst, hrest⟩ := List.pairwise_cons.mp hordered
      cases out' with
      | nil => exact absurd hsame.symm.nil_eq (by simp)
      | cons a' rest' =>
          obtain ⟨hfirst', hrest'⟩ := List.pairwise_cons.mp hordered'
          -- both are least, so they are equal to one another, and first among their equals
          have hself : ∀ b, cmp b b = .eq := fun _ => Std.ReflCmp.compare_self
          have hle : (cmp a a').isLE = true := by
            rcases List.mem_cons.mp (hsame.mem_iff.mpr (List.mem_cons_self ..)) with heq | hmem
            · rw [heq, hself]
              rfl
            · exact hfirst a' hmem
          have hge : (cmp a' a).isLE = true := by
            rcases List.mem_cons.mp (hsame.mem_iff.mp (List.mem_cons_self ..)) with heq | hmem
            · rw [heq, hself]
              rfl
            · exact hfirst' a hmem
          have heq : cmp a a' = .eq := Std.OrientedCmp.isLE_antisymm hle hge
          have hhead : a = a' := by
            have h := hclass a
            rw [List.filter_cons, List.filter_cons, hself, heq] at h
            exact (List.cons.inj h).1
          subst hhead
          refine congrArg (a :: ·) (ih hrest hrest' hsame.cons_inv fun b => ?_)
          have h := hclass b
          rw [List.filter_cons, List.filter_cons] at h
          split at h
          · exact (List.cons.inj h).2
          · exact h

end IsStableSort
end VaultQuery
