import VaultQuery.Proofs.Failure.Steps

/-! # The first failure

    Steps that are taken in a row end at the first one that fails, and fail as it does.

    * `IsFirst`: an item is the first one of a list with a property, and
      `exists_isFirst_iff`: there is one if some item has it;
    * `find?_eq_some_iff_isFirst`: it is what looking for one finds;
    * `collect_eq_error_iff`: steps in a row fail as the first one that fails. -/

namespace VaultQuery

variable {α β : Type} {p : α → Prop} {a b : α} {as : List α}

/-- The item is the first one with the property. -/
def IsFirst (p : α → Prop) (as : List α) (a : α) : Prop :=
  ∃ before after, as = before ++ a :: after ∧ p a ∧ ∀ b ∈ before, ¬ p b

theorem IsFirst.mem (h : IsFirst p as a) : a ∈ as := by
  obtain ⟨before, after, rfl, -⟩ := h
  exact List.mem_append.mpr (Or.inr (List.mem_cons_self ..))

theorem IsFirst.holds (h : IsFirst p as a) : p a := by
  obtain ⟨-, -, -, ha, -⟩ := h
  exact ha

theorem isFirst_cons_of_pos (hb : p b) : IsFirst p (b :: as) a ↔ a = b := by
  constructor
  · rintro ⟨before, after, heq, -, hbefore⟩
    cases before with
    | nil => exact (List.cons.inj heq).1.symm
    | cons x before =>
        obtain rfl : b = x := (List.cons.inj heq).1
        exact absurd hb (hbefore b (List.mem_cons_self ..))
  · rintro rfl
    exact ⟨[], as, rfl, hb, fun _ h => nomatch h⟩

theorem isFirst_cons_of_neg (hb : ¬ p b) : IsFirst p (b :: as) a ↔ IsFirst p as a := by
  constructor
  · rintro ⟨before, after, heq, ha, hbefore⟩
    cases before with
    | nil =>
        obtain rfl : b = a := (List.cons.inj heq).1
        exact absurd ha hb
    | cons x before =>
        exact ⟨before, after, (List.cons.inj heq).2, ha, (List.forall_mem_cons.mp hbefore).2⟩
  · rintro ⟨before, after, rfl, ha, hbefore⟩
    exact ⟨b :: before, after, rfl, ha, List.forall_mem_cons.mpr ⟨hb, hbefore⟩⟩

theorem isFirst_congr {p' : α → Prop} (h : ∀ a ∈ as, p a ↔ p' a) :
    IsFirst p as a ↔ IsFirst p' as a := by
  refine exists₂_congr fun before after => and_congr_right fun heq => ?_
  subst heq
  obtain ⟨hbefore, hafter⟩ := List.forall_mem_append.mp h
  exact and_congr (hafter a (List.mem_cons_self ..))
    (forall₂_congr fun b hb => not_congr (hbefore b hb))

/-- Some item is the first one with a property that some item has. -/
theorem exists_isFirst_iff : (∃ a, IsFirst p as a) ↔ ∃ a ∈ as, p a := by
  induction as with
  | nil =>
      refine iff_of_false ?_ fun ⟨a, ha, _⟩ => nomatch ha
      rintro ⟨a, hfirst⟩
      exact nomatch hfirst.mem
  | cons b as ih =>
      simp only [List.mem_cons, exists_eq_or_imp]
      by_cases hb : p b
      · simp only [isFirst_cons_of_pos hb, exists_eq, hb, true_or]
      · simp only [isFirst_cons_of_neg hb, ih, hb, false_or]

/-- Looking for an item finds the first one. -/
theorem find?_eq_some_iff_isFirst {p : α → Bool} :
    as.find? p = some a ↔ IsFirst (fun a => p a = true) as a := by
  rw [List.find?_eq_some_iff_append, IsFirst]
  simp only [Bool.not_eq_true', Bool.not_eq_true]
  constructor
  · rintro ⟨ha, before, after, heq, hbefore⟩
    exact ⟨before, after, heq, ha, hbefore⟩
  · rintro ⟨before, after, heq, ha, hbefore⟩
    exact ⟨ha, before, after, heq, hbefore⟩

/-- **Steps in a row fail as the first one that fails.** -/
theorem collect_eq_error_iff {f : α → Except Failure β} {e : Failure} :
    collect f as = .error e ↔
      ∃ a, IsFirst (fun a => ∃ e, f a = .error e) as a ∧ f a = .error e := by
  induction as with
  | nil =>
      refine iff_of_false (fun h => nomatch h) ?_
      rintro ⟨a, hfirst, -⟩
      exact nomatch hfirst.mem
  | cons b as ih =>
      rw [collect]
      cases hb : f b with
      | error e' =>
          have hfails : ∃ e, f b = .error e := ⟨e', hb⟩
          simp only [isFirst_cons_of_pos (p := fun a => ∃ e, f a = .error e) hfails,
            exists_eq_left, hb, Except.error.injEq]
      | ok y =>
          have hnot : ¬ ∃ e, f b = .error e := by simp [hb]
          simp only [isFirst_cons_of_neg (p := fun a => ∃ e, f a = .error e) hnot, ← ih]
          exact map_eq_error_iff

end VaultQuery
