import VaultQuery.Value.Comparison

/-! # Values and themselves

    A value should be equal to itself and stand in order with itself. A NaN is the only thing
    in the way of the first; the second fails as well for what has no order at all. Between two
    values it does not matter which of them is asked.

    * `Value.looseEqual_comm`: equality is the same from both sides;
    * `Value.looseEqual_self_iff`: a value without NaN, at any depth, equals itself;
    * `Value.hasNaN_eq_false_of_looseEqual`: nothing equals a value with a NaN;
    * `Value.compare?_self`, `Value.isUnordered_eq_false_of_compare?`: the same for the order. -/

namespace VaultQuery

namespace Double

/-- A number equals itself unless it is a NaN. -/
theorem equal_self_iff {d : Double} : d.equal d = true ↔ d.isNaN = false := by
  simp [equal]

theorem equal_comm (a b : Double) : a.equal b = b.equal a := by
  rw [equal, equal, Bool.and_comm (!a.isNaN), BEq.comm (a := a.key)]

/-- What a number equals is no NaN. -/
theorem isNaN_eq_false_of_equal {a b : Double} (h : a.equal b = true) : b.isNaN = false := by
  simp only [equal, Bool.and_eq_true, Bool.not_eq_true'] at h
  exact h.1.2

/-- A number that is no NaN stands beside itself. -/
theorem compare?_self {d : Double} (h : d.isNaN = false) : d.compare? d = some .eq := by
  rw [compare?, h]
  simp

/-- What a number compares with is no NaN. -/
theorem isNaN_eq_false_of_compare? {a b : Double} {o : Ordering} (h : a.compare? b = some o) :
    b.isNaN = false := by
  rw [compare?] at h
  cases hb : b.isNaN with
  | false => rfl
  | true =>
      rw [hb, Bool.or_true] at h
      exact nomatch h

end Double

namespace Value

mutual

/-- A NaN occurs in the value, itself or in items at any depth. -/
def hasNaN : Value → Bool
  | .number d => d.isNaN
  | .list items => itemsHaveNaN items
  | _ => false

/-- A NaN occurs in some of the items. -/
def itemsHaveNaN : List Value → Bool
  | [] => false
  | v :: vs => v.hasNaN || itemsHaveNaN vs

end

mutual

/-- **Equality is the same from both sides**, although each side may be read as the other. -/
theorem looseEqual_comm : ∀ a b : Value, a.looseEqual b = b.looseEqual a
  | .null, b => by cases b <;> simp only [looseEqual]
  | .bool a, b => by
      cases b with
      | bool b => rw [looseEqual, looseEqual, BEq.comm]
      | _ => simp only [looseEqual]
  | .number a, b => by
      cases b with
      | number b => rw [looseEqual, looseEqual, Double.equal_comm]
      | _ => simp only [looseEqual]
  | .text a, b => by
      cases b with
      | text b => rw [looseEqual, looseEqual, BEq.comm]
      | _ => simp only [looseEqual]
  | .date a, b => by
      cases b with
      | date b => rw [looseEqual, looseEqual, BEq.comm]
      | _ => simp only [looseEqual]
  | .list as, b => by
      cases b with
      | list bs => rw [looseEqual, looseEqual, looseEqualItems_comm as bs]
      | _ => simp only [looseEqual]

theorem looseEqualItems_comm : ∀ as bs : List Value,
    looseEqualItems as bs = looseEqualItems bs as
  | [], [] => rfl
  | [], _ :: _ => by simp only [looseEqualItems]
  | _ :: _, [] => by simp only [looseEqualItems]
  | a :: as, b :: bs => by
      rw [looseEqualItems, looseEqualItems, looseEqual_comm a b, looseEqualItems_comm as bs]

end

/-- The value has no place in the order of values: it is nothing, a list or a NaN. -/
def isUnordered : Value → Bool
  | .null => true
  | .list _ => true
  | .number d => d.isNaN
  | _ => false

/-- A NaN occurs in a list exactly when it occurs in one of its items. -/
theorem itemsHaveNaN_eq_false_iff {items : List Value} :
    itemsHaveNaN items = false ↔ ∀ v ∈ items, v.hasNaN = false := by
  induction items with
  | nil => simp [itemsHaveNaN]
  | cons v vs ih => rw [itemsHaveNaN, Bool.or_eq_false_iff, ih, List.forall_mem_cons]

mutual

/-- A value equals itself exactly when no NaN occurs in it. -/
theorem looseEqual_self_iff : ∀ v : Value, v.looseEqual v = true ↔ v.hasNaN = false
  | .null => by simp [looseEqual, hasNaN]
  | .bool b => by simp [looseEqual, hasNaN]
  | .number d => by rw [looseEqual, hasNaN, Double.equal_self_iff]
  | .text s => by simp [looseEqual, hasNaN]
  | .date t => by simp [looseEqual, hasNaN]
  | .list items => by rw [looseEqual, hasNaN, looseEqualItems_self_iff items]

/-- Items equal themselves exactly when no NaN occurs in them. -/
theorem looseEqualItems_self_iff :
    ∀ items : List Value, looseEqualItems items items = true ↔ itemsHaveNaN items = false
  | [] => by simp [looseEqualItems, itemsHaveNaN]
  | v :: vs => by
      rw [looseEqualItems, itemsHaveNaN, Bool.and_eq_true, Bool.or_eq_false_iff,
        looseEqual_self_iff v, looseEqualItems_self_iff vs]

end

mutual

/-- Nothing equals a value in which a NaN occurs. -/
theorem hasNaN_eq_false_of_looseEqual :
    ∀ (w v : Value), v.looseEqual w = true → w.hasNaN = false
  | .null, _, _ => rfl
  | .bool _, _, _ => rfl
  | .text _, _, _ => rfl
  | .date _, _, _ => rfl
  | .number d, v, h => by
      rw [hasNaN]
      cases v with
      | number a => rw [looseEqual] at h; exact Double.isNaN_eq_false_of_equal h
      | bool b => rw [looseEqual] at h; exact Double.isNaN_eq_false_of_equal h
      | text s =>
          rw [looseEqual, spellsNumber] at h
          cases hs : readDouble? s with
          | none => rw [hs] at h; exact nomatch h
          | some e => rw [hs] at h; exact Double.isNaN_eq_false_of_equal h
      | _ => simp [looseEqual] at h
  | .list items, v, h => by
      rw [hasNaN]
      cases v with
      | list vs => rw [looseEqual] at h; exact itemsHaveNaN_eq_false_of_looseEqualItems items vs h
      | _ => simp [looseEqual] at h

/-- Nothing equals items in which a NaN occurs. -/
theorem itemsHaveNaN_eq_false_of_looseEqualItems :
    ∀ (ws vs : List Value), looseEqualItems vs ws = true → itemsHaveNaN ws = false
  | [], _, _ => rfl
  | w :: ws, [], h => by simp [looseEqualItems] at h
  | w :: ws, v :: vs, h => by
      rw [looseEqualItems, Bool.and_eq_true] at h
      rw [itemsHaveNaN, hasNaN_eq_false_of_looseEqual w v h.1,
        itemsHaveNaN_eq_false_of_looseEqualItems ws vs h.2]
      rfl

end

/-- A value with a place in the order stands beside itself. -/
theorem compare?_self {v : Value} (h : v.isUnordered = false) : v.compare? v = some .eq := by
  cases v with
  | null => exact nomatch h
  | list items => exact nomatch h
  | number d => rw [compare?]; exact Double.compare?_self h
  | bool b => simp [compare?, compareBool]
  | text s => simp [compare?]
  | date t => simp [compare?, Instant.compare]

/-- Nothing stands in order with a value that has no place in it. -/
theorem isUnordered_eq_false_of_compare? {v w : Value} {o : Ordering} (h : v.compare? w = some o) :
    w.isUnordered = false := by
  cases w with
  | null => simp [compare?] at h
  | list items => simp [compare?] at h
  | number d =>
      cases v with
      | number a => rw [compare?] at h; exact Double.isNaN_eq_false_of_compare? h
      | text s =>
          rw [compare?] at h
          obtain ⟨a, -, ha⟩ := Option.bind_eq_some_iff.mp h
          exact Double.isNaN_eq_false_of_compare? ha
      | _ => simp [compare?] at h
  | _ => rfl

end Value
end VaultQuery
