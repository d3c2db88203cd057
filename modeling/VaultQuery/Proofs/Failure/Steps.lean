import VaultQuery.Query.Basic

/-! # Steps that may fail

    Commands are chains of steps in `Except Failure`. A chain has a result exactly when each
    of its steps has one:

    * `map_eq_ok_iff`, `map_eq_error_iff`, `bind_eq_ok_iff` take one step off a chain;
    * `exists_collect_iff` does the same for the steps of a whole list. -/

namespace VaultQuery

variable {ε α β : Type}

/-- A mapped step has a result exactly when the step has one. -/
theorem map_eq_ok_iff {f : α → β} {x : Except ε α} {b : β} :
    x.map f = .ok b ↔ ∃ a, x = .ok a ∧ f a = b := by
  cases x with
  | error e => simp [Except.map]
  | ok a => simp [Except.map]

/-- A mapped step fails as the step does. -/
theorem map_eq_error_iff {f : α → β} {x : Except ε α} {e : ε} :
    x.map f = .error e ↔ x = .error e := by
  cases x with
  | error e' => simp [Except.map]
  | ok a => simp [Except.map]

theorem exists_map_eq_ok_iff {f : α → β} {x : Except ε α} :
    (∃ b, x.map f = .ok b) ↔ ∃ a, x = .ok a := by
  constructor
  · rintro ⟨b, hb⟩
    obtain ⟨a, ha, -⟩ := map_eq_ok_iff.mp hb
    exact ⟨a, ha⟩
  · rintro ⟨a, ha⟩
    exact ⟨f a, map_eq_ok_iff.mpr ⟨a, ha, rfl⟩⟩

/-- A chain of two steps has a result exactly when both have one. -/
theorem bind_eq_ok_iff {f : α → Except ε β} {x : Except ε α} {b : β} :
    x >>= f = .ok b ↔ ∃ a, x = .ok a ∧ f a = .ok b := by
  cases x with
  | error e => simp [bind, Except.bind]
  | ok a => simp [bind, Except.bind]

/-- A step with a result, seen without the failures. -/
theorem toOption_eq_some_iff {x : Except ε α} {a : α} : x.toOption = some a ↔ x = .ok a := by
  cases x with
  | error e => simp [Except.toOption]
  | ok b => simp [Except.toOption]

/-- The failure of a step, if it has no result. -/
def failure? : Except ε α → Option ε
  | .error e => some e
  | .ok _ => none

theorem failure?_eq_some_iff {x : Except ε α} {e : ε} : failure? x = some e ↔ x = .error e := by
  cases x with
  | error e' => simp [failure?]
  | ok a => simp [failure?]

/-- Collecting gives a result exactly when every item has one. -/
theorem exists_collect_iff {f : α → Except Failure β} {as : List α} :
    (∃ bs, collect f as = .ok bs) ↔ ∀ a ∈ as, ∃ b, f a = .ok b := by
  induction as with
  | nil => simp [collect]
  | cons a as ih =>
      rw [List.forall_mem_cons, ← ih, collect]
      cases ha : f a with
      | error e => simp
      | ok b =>
          have hhead : ∃ b', Except.ok b = (Except.ok b' : Except Failure β) := ⟨b, rfl⟩
          simp only [map_eq_ok_iff, hhead, true_and]
          constructor
          · rintro ⟨_, bs, hbs, rfl⟩
            exact ⟨bs, hbs⟩
          · rintro ⟨bs, hbs⟩
            exact ⟨b :: bs, bs, hbs, rfl⟩

/-- The results that were collected are the results of the items. -/
theorem mem_collect {f : α → Except Failure β} {as : List α} {bs : List β}
    (h : collect f as = .ok bs) {b : β} : b ∈ bs ↔ ∃ a ∈ as, f a = .ok b := by
  have hmap : as.map f = bs.map .ok := collect_eq_ok_iff.mp h
  constructor
  · intro hb
    have hmem : Except.ok b ∈ as.map f := hmap ▸ List.mem_map.mpr ⟨b, hb, rfl⟩
    exact List.mem_map.mp hmem
  · rintro ⟨a, ha, hfa⟩
    have hmem : f a ∈ bs.map Except.ok := hmap ▸ List.mem_map.mpr ⟨a, ha, rfl⟩
    obtain ⟨c, hc, hca⟩ := List.mem_map.mp hmem
    rw [hfa] at hca
    exact Except.ok.inj hca ▸ hc

end VaultQuery
