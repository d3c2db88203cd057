import VaultQuery.Proofs.Value.Equality

/-! # Equality and order agree

    Equality and order read texts as numbers and dates each by a table of its own. The tables
    agree wherever there is an order at all.

    * `Value.compare?_comm`: the order from the other side;
    * `Value.eq_iff_looseEqual`: values that stand in order are equal in it exactly when they
      are loosely equal. -/

namespace VaultQuery

/-! ## Numbers and instants -/

namespace Double

theorem compare?_comm (a b : Double) : a.compare? b = (b.compare? a).map Ordering.swap := by
  rw [compare?, compare?, Bool.or_comm b.isNaN]
  split
  · rfl
  · exact congrArg some Std.OrientedCmp.eq_swap

/-- Numbers that stand in order are equal in it when they are equal. -/
theorem eq_iff_equal {a b : Double} {o : Ordering} (h : a.compare? b = some o) :
    o = .eq ↔ a.equal b = true := by
  rw [compare?] at h
  split at h
  · cases h
  · rename_i hnan
    rw [Bool.not_eq_true, Bool.or_eq_false_iff] at hnan
    cases h
    rw [equal, hnan.1, hnan.2, Int.compare_eq_eq]
    exact beq_iff_eq.symm

end Double

namespace Instant

theorem compare_comm (a b : Instant) : a.compare b = (b.compare a).swap := by
  rw [compare, compare]
  exact Std.OrientedCmp.eq_swap

theorem compare_eq_eq {a b : Instant} : a.compare b = .eq ↔ a = b := by
  rw [compare, Int.compare_eq_eq]
  exact ⟨key_injective, congrArg key⟩

end Instant

namespace Value

theorem compareBool_comm (a b : Bool) : compareBool a b = (compareBool b a).swap := by
  rw [compareBool, compareBool]
  exact Std.OrientedCmp.eq_swap

/-! ## Values -/

/-- **The order from the other side is the reverse**, and there is none from one side exactly
    when there is none from the other. -/
theorem compare?_comm (a b : Value) : a.compare? b = (b.compare? a).map Ordering.swap := by
  cases a with
  | null => cases b <;> rfl
  | list as => cases b <;> rfl
  | bool a =>
      cases b with
      | bool b => exact congrArg some (compareBool_comm a b)
      | _ => rfl
  | number a =>
      cases b with
      | number b => exact Double.compare?_comm a b
      | text s =>
          rw [compare?, compare?]
          cases readDouble? s with
          | none => rfl
          | some b => exact Double.compare?_comm a b
      | _ => rfl
  | text s =>
      cases b with
      | text t => exact congrArg some Std.OrientedCmp.eq_swap
      | number b =>
          rw [compare?, compare?]
          cases readDouble? s with
          | none => rfl
          | some a => exact Double.compare?_comm a b
      | date b =>
          rw [compare?, compare?]
          cases Instant.read? s with
          | none => rfl
          | some a => exact congrArg some (Instant.compare_comm a b)
      | _ => rfl
  | date a =>
      cases b with
      | date b => exact congrArg some (Instant.compare_comm a b)
      | text s =>
          rw [compare?, compare?]
          cases Instant.read? s with
          | none => rfl
          | some b => exact congrArg some (Instant.compare_comm a b)
      | _ => rfl

/-- A text and a number in order are equal when the text spells that number. -/
theorem eq_iff_spellsNumber {s : String} {d : Double} {o : Ordering}
    (h : (readDouble? s).bind (fun e => e.compare? d) = some o) :
    o = .eq ↔ spellsNumber s d = true := by
  rw [spellsNumber]
  cases hs : readDouble? s with
  | none =>
      rw [hs] at h
      cases h
  | some e =>
      rw [hs] at h
      exact Double.eq_iff_equal h

/-- A text and a date in order are equal when the text spells that date. -/
theorem eq_iff_readInstant {s : String} {t : Instant} {o : Ordering}
    (h : (Instant.read? s).map (fun u => u.compare t) = some o) :
    o = .eq ↔ (Instant.read? s == some t) = true := by
  cases hs : Instant.read? s with
  | none =>
      rw [hs] at h
      cases h
  | some u =>
      rw [hs] at h
      cases h
      rw [Instant.compare_eq_eq, beq_iff_eq, Option.some.injEq]

/-- **Values that stand in order are equal in it exactly when they are loosely equal.** -/
theorem eq_iff_looseEqual {a b : Value} {o : Ordering} (h : a.compare? b = some o) :
    o = .eq ↔ a.looseEqual b = true := by
  -- a number or date before a text is looked at from the side of the text
  have hswap : ∀ c d : Value, c.compare? d = some o → d.compare? c = some o.swap := by
    intro c d hcd
    rw [compare?_comm, hcd]
    rfl
  have hback : ∀ p : Prop, (o.swap = .eq ↔ p) → (o = .eq ↔ p) := by
    intro p hp
    rw [← hp, Ordering.swap_eq_eq]
  cases a with
  | null => exact nomatch h
  | list as => exact nomatch h
  | bool a =>
      cases b with
      | bool b =>
          cases h
          cases a <;> cases b <;> decide
      | _ => exact nomatch h
  | number a =>
      cases b with
      | number b => exact Double.eq_iff_equal h
      | text s => exact hback _ (eq_iff_spellsNumber (hswap (.number a) (.text s) h))
      | _ => exact nomatch h
  | text s =>
      cases b with
      | text t =>
          cases h
          rw [looseEqual, beq_iff_eq]
          exact Std.LawfulEqCmp.compare_eq_iff_eq
      | number b => exact eq_iff_spellsNumber h
      | date b => exact eq_iff_readInstant h
      | _ => exact nomatch h
  | date a =>
      cases b with
      | date b =>
          cases h
          rw [looseEqual, beq_iff_eq]
          exact Instant.compare_eq_eq
      | text s => exact hback _ (eq_iff_readInstant (hswap (.date a) (.text s) h))
      | _ => exact nomatch h

end Value

end VaultQuery
