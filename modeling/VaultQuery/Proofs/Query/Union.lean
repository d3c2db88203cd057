import VaultQuery.Proofs.Query.Satisfaction
import VaultQuery.Proofs.Vault.Sample

/-! # The union that enforcing makes

    An operator that adds to a list leaves the items that are there, and puts behind them those
    of the wanted ones that equal nothing before them. Since equality does not carry over from
    one value to the next, this is said of every item and all that stands before it.

    * `IsLeastUnion`: what is added for wanted items, and `exists_isLeastUnion`: it is there
      after adding;
    * `addMissing_eq_self_iff`: nothing is added exactly when all is there;
    * `Operator.isLeastUnion_enforce`: so for the two operators, and what is left unchanged
      is what passes their test. -/

namespace VaultQuery

/-- The values that have to be put behind the items so that those wanted are there. -/
structure IsLeastUnion (items wanted added : List Value) : Prop where
  /-- They are some of those wanted, in their order. -/
  sublist : added.Sublist wanted
  /-- None equals anything before it. -/
  fresh : ∀ before x after, added = before ++ x :: after →
    ∀ y ∈ items ++ before, y.looseEqual x = false ∧ x.looseEqual y = false
  /-- All that is wanted is there then, if it equals itself. -/
  present : ∀ x ∈ wanted, x.looseEqual x = true →
    ∃ y ∈ items ++ added, y.looseEqual x = true ∧ x.looseEqual y = true

namespace IsLeastUnion

variable {items wanted added : List Value} {v : Value}

theorem nil (items : List Value) : IsLeastUnion items [] [] where
  sublist := .refl []
  fresh := fun before x after h => by simp at h
  present := fun _ hx => nomatch hx

/-- What is there need not be added. -/
theorem skip (hv : hasItem items v = true) (h : IsLeastUnion items wanted added) :
    IsLeastUnion items (v :: wanted) added where
  sublist := h.sublist.cons v
  fresh := h.fresh
  present := by
    refine List.forall_mem_cons.mpr ⟨fun _ => ?_, h.present⟩
    obtain ⟨y, hy, hyv⟩ := List.any_eq_true.mp hv
    exact ⟨y, List.mem_append.mpr (Or.inl hy), hyv, Value.looseEqual_comm y v ▸ hyv⟩

/-- What is not there is added, and what comes after it is compared with it as well. -/
theorem add (hv : hasItem items v = false) (h : IsLeastUnion (items ++ [v]) wanted added) :
    IsLeastUnion items (v :: wanted) (v :: added) where
  sublist := h.sublist.cons_cons v
  fresh := by
    intro before x after heq y hy
    cases before with
    | nil =>
        obtain ⟨rfl, -⟩ := List.cons.inj heq
        have hyv : y.looseEqual v = false := by
          have hnone := List.any_eq_false.mp hv y (by simpa using hy)
          exact Bool.not_eq_true _ ▸ hnone
        exact ⟨hyv, Value.looseEqual_comm y v ▸ hyv⟩
    | cons b before =>
        obtain ⟨rfl, hadded⟩ := List.cons.inj heq
        exact h.fresh before x after hadded y (by simpa using hy)
  present := by
    have hsame : items ++ v :: added = items ++ [v] ++ added := by simp
    rw [hsame]
    refine List.forall_mem_cons.mpr ⟨fun hvv => ⟨v, ?_, hvv, hvv⟩, h.present⟩
    simp

end IsLeastUnion

/-- **Adding what is missing makes the least union.** -/
theorem exists_isLeastUnion (items wanted : List Value) :
    ∃ added, addMissing items wanted = items ++ added ∧ IsLeastUnion items wanted added := by
  induction wanted generalizing items with
  | nil => exact ⟨[], (List.append_nil items).symm, .nil items⟩
  | cons v wanted ih =>
      rw [addMissing]
      by_cases hv : hasItem items v = true
      · rw [if_pos hv]
        obtain ⟨added, heq, hunion⟩ := ih items
        exact ⟨added, heq, hunion.skip hv⟩
      · rw [if_neg hv]
        obtain ⟨added, heq, hunion⟩ := ih (items ++ [v])
        refine ⟨v :: added, ?_, hunion.add (Bool.eq_false_iff.mpr hv)⟩
        rw [heq, List.append_assoc, List.singleton_append]

/-- A wanted item may equal one of another type, or one that was just added. -/
example : addMissing [.text "true"] [.bool true, .text "b", .null, .text "b"]
    = [.text "true", .text "b", .null] := by rfl

/-- Nothing is added exactly when all that is wanted is there. -/
theorem addMissing_eq_self_iff {items wanted : List Value} :
    addMissing items wanted = items ↔ ∀ v ∈ wanted, hasItem items v = true := by
  induction wanted generalizing items with
  | nil => simp [addMissing]
  | cons v wanted ih =>
      rw [addMissing, List.forall_mem_cons]
      by_cases hv : hasItem items v = true
      · rw [if_pos hv, ih, and_iff_right hv]
      · rw [if_neg hv]
        refine iff_of_false (fun heq => ?_) fun h => hv h.1
        obtain ⟨added, hadded, -⟩ := exists_isLeastUnion (items ++ [v]) wanted
        have hlength := congrArg List.length (hadded.symm.trans heq)
        simp at hlength

/-- A list has all that was added to it, so that adding it once more adds nothing. -/
theorem addMissing_addMissing {items wanted : List Value}
    (h : ∀ u ∈ wanted, u.hasNaN = false) :
    addMissing (addMissing items wanted) wanted = addMissing items wanted :=
  addMissing_eq_self_iff.mpr fun u hu => hasItem_addMissing_of_mem hu (h u hu)

namespace Operator

/-- A list that is left unchanged passes, and the other way around. -/
theorem enforce_eq_self_iff {op : Operator} (hop : op.IsUnion) {a : Attribute} {d : Document}
    {w : Value} {link : Option String} {items : List Value} (hd : a.value d = .list items) :
    op.enforce a.key (.list items) w link = .ok (.list items) ↔
      op.holds a d w link = .ok true := by
  rw [holds_eq_true_iff, hd]
  rcases hop with rfl | rfl
  · rw [passes_hasAll_iff]
    simp [enforce, currentItems, Value.items?, addMissing_eq_self_iff]
  · rw [passes_hasThis_iff]
    cases link with
    | none => simp [enforce, thisLink, Except.map]
    | some l =>
        simp [enforce, thisLink, Except.map, currentItems, Value.items?, addMissing_eq_self_iff]

/-- **To enforce an operator that adds to a list is to make the least union** of the current
    items, none if there is no list, and those wanted; a list is left as it is exactly when a
    document that holds it passes. -/
theorem isLeastUnion_enforce :
    (∀ key current w link, ∃ added,
      enforce .hasAll key current w link = .ok (.list (currentItems current ++ added)) ∧
        IsLeastUnion (currentItems current) w.toItems added) ∧
    (∀ key current w l, ∃ added,
      enforce .hasThis key current w (some l) = .ok (.list (currentItems current ++ added)) ∧
        IsLeastUnion (currentItems current) [.text l] added) ∧
    ∀ op, IsUnion op → ∀ a d w link items, Attribute.value a d = .list items →
      (op.enforce a.key (.list items) w link = .ok (.list items) ↔
        op.holds a d w link = .ok true) := by
  refine ⟨fun key current w link => ?_, fun key current w l => ?_,
    fun op hop a d w link items hd => enforce_eq_self_iff hop hd⟩
  · obtain ⟨added, heq, hunion⟩ := exists_isLeastUnion (currentItems current) w.toItems
    exact ⟨added, by rw [enforce, heq], hunion⟩
  · obtain ⟨added, heq, hunion⟩ := exists_isLeastUnion (currentItems current) [.text l]
    refine ⟨added, ?_, hunion⟩
    rw [← heq]
    rfl

/-- A book on the reading list keeps its collections when it is put there. Of the wanted items
    below the number equals the text that is there, and what is wanted twice is added once; the
    two texts that spell the number are not equal to each other, and both stay. -/
theorem isLeastUnion_enforce_of_dune :
    (Operator.hasThis.holds (.field "collection" .list) Sample.dune .null (some "[[Reading]]")
        = .ok true ∧
      Operator.hasThis.enforce (.field "collection") (.list [.text "[[Reading]]"]) .null
        (some "[[Reading]]") = .ok (.list [.text "[[Reading]]"])) ∧
    ∃ added, Operator.hasAll.enforce (.field "tags") (.list [.text "1"])
        (.list [.number (.ofInt 1), .text "b", .text "1.0", .text "b", .null]) none
        = .ok (.list ([.text "1"] ++ added)) ∧
      IsLeastUnion [.text "1"]
        [.number (.ofInt 1), .text "b", .text "1.0", .text "b", .null] added ∧
      added = [.text "b", .text "1.0", .null] := by
  obtain ⟨hall, -, hself⟩ := isLeastUnion_enforce
  constructor
  · have hstored : (Attribute.field "collection" .list).value Sample.dune
        = .list [.text "[[Reading]]"] := rfl
    have hholds : Operator.hasThis.holds (.field "collection" .list) Sample.dune .null
        (some "[[Reading]]") = .ok true := rfl
    exact ⟨hholds, (hself .hasThis (Or.inr rfl) _ _ .null _ _ hstored).mpr hholds⟩
  · obtain ⟨added, henforce, hunion⟩ := hall (.field "tags") (.list [.text "1"])
      (.list [.number (.ofInt 1), .text "b", .text "1.0", .text "b", .null]) none
    have hspelled : hasItem [.text "1"] (.number (.ofInt 1)) = true := by decide +kernel
    have hmissing : addMissing [.text "1"]
        [.number (.ofInt 1), .text "b", .text "1.0", .text "b", .null]
        = [.text "1", .text "b", .text "1.0", .null] := by
      rw [addMissing, if_pos hspelled]
      rfl
    have hadded : [.text "1"] ++ added = [.text "1", .text "b", .text "1.0", .null] :=
      (Value.list.inj (Except.ok.inj henforce)).symm.trans hmissing
    exact ⟨added, henforce, hunion, List.append_cancel_left hadded⟩

end Operator
end VaultQuery
