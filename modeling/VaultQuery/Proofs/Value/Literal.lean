import VaultQuery.Proofs.Attribute.Coercion
import VaultQuery.Proofs.Failure.Steps
import VaultQuery.Proofs.Query.Grammar
import VaultQuery.Proofs.Value.Equality

/-! # No expression spells a NaN

    A NaN can be stored, but it cannot be asked for: numbers of clause expressions are rounded
    quotients of naturals, which are at most infinite, and texts that a kind reads as numbers
    are finite.

    * `Double.isNaN_nearest`: rounding gives no NaN;
    * `Value.hasNaN_ofLiteral`: no NaN occurs in the value of a text;
    * `Kind.hasNaN_coerce`: no kind brings one in;
    * `Clause.operand_of_ofExpression`: where the value of a clause comes from;
    * `Clause.hasNaN_eq_false_of_ofExpression`: no NaN occurs in it. -/

namespace VaultQuery

/-! ## Numbers -/

/-- A rounded quotient is at most infinite. -/
theorem Double.isNaN_nearest (negative : Bool) (num den : Nat) :
    (nearest negative num den).isNaN = false := by
  have hle : nearestMagnitude num den ≤ infinityMagnitude := Nat.min_le_left ..
  exact decide_eq_false (Nat.not_lt.mpr hle)

theorem Double.isNaN_zero (negative : Bool) : (zero negative).isNaN = false := rfl

/-- What a text spells is finite. -/
theorem isNaN_eq_false_of_readDouble? {s : String} {d : Double} (h : readDouble? s = some d) :
    d.isNaN = false := by
  rw [readDouble?] at h
  cases hread : Decimal.read? (Text.trimChars s.toList) with
  | none => simp [hread] at h
  | some e =>
      simp only [hread] at h
      by_cases hfinite : e.nearest.isFinite = true
      · rw [if_pos hfinite] at h
        cases h
        exact Double.isNaN_eq_false_of_isFinite hfinite
      · rw [if_neg hfinite] at h
        cases h

namespace Json.Numeral

/-- Scaling rounds, or gives zero. -/
theorem isNaN_eq_false_of_scale? {n : Nat} {e : Int} {d : Double} (h : scale? n e = some d) :
    d.isNaN = false := by
  simp only [scale?] at h
  by_cases hlarge : 308 < e
  · rw [if_pos hlarge] at h
    by_cases hn : n = 0
    · rw [if_pos hn] at h
      cases h
      exact Double.isNaN_nearest ..
    · rw [if_neg hn] at h
      exact nomatch h
  · rw [if_neg hlarge] at h
    by_cases hproduct : 0 ≤ e
    · rw [if_pos hproduct] at h
      split at h
      · exact nomatch h
      · cases h
        exact Double.isNaN_nearest ..
    · rw [if_neg hproduct] at h
      -- one quotient, a quotient of a quotient, or zero
      split at h
      · cases h
        exact Double.isNaN_nearest ..
      · split at h
        · cases h
          exact Double.isNaN_nearest ..
        · cases h
          exact Double.isNaN_zero false

/-- No written number is a NaN. -/
theorem isNaN_eq_false_of_number? {n : Numeral} {d : Double} (h : n.number? = some (.real d)) :
    d.isNaN = false := by
  have hreal : n.real? = some d := by
    simp only [number?] at h
    split at h
    · exact nomatch h
    · split at h
      · exact nomatch h
      · obtain ⟨d', hd', heq⟩ := Option.map_eq_some_iff.mp h
        cases heq
        exact hd'
  simp only [real?] at hreal
  obtain ⟨d', hd', rfl⟩ := Option.map_eq_some_iff.mp hreal
  -- the sign does not matter
  have hnum : d'.isNaN = false := isNaN_eq_false_of_scale? hd'
  exact hnum

end Json.Numeral

/-! ## Values -/

namespace Value

open Json

mutual

/-- No NaN occurs in the value of a written tree. -/
theorem hasNaN_eq_false_of_ofWritten? : ∀ (w : Written) (limit : Nat) (j : Json),
    ofWritten? limit w = some j → (ofAnyJson j).hasNaN = false
  | .null, _, _, h => by
      cases h
      rfl
  | .bool _, _, _, h => by
      cases h
      rfl
  | .text raw, _, j, h => by
      rw [ofWritten?] at h
      obtain ⟨s, -, rfl⟩ := Option.map_eq_some_iff.mp h
      rfl
  | .number n, _, j, h => by
      rw [ofWritten?] at h
      obtain ⟨x, hx, rfl⟩ := Option.map_eq_some_iff.mp h
      cases x with
      | integer i => exact Double.isNaN_nearest ..
      | real d => exact Numeral.isNaN_eq_false_of_number? hx
  | .array items, limit, j, h => by
      rw [ofWritten?] at h
      by_cases hlimit : limit = 0
      · rw [if_pos hlimit] at h
        exact nomatch h
      · rw [if_neg hlimit] at h
        obtain ⟨js, hjs, rfl⟩ := Option.map_eq_some_iff.mp h
        exact itemsHaveNaN_eq_false_of_ofItems? items (limit - 1) js hjs
  | .object members, limit, j, h => by
      -- an object is kept as its text
      rw [ofWritten?] at h
      by_cases hlimit : limit = 0
      · rw [if_pos hlimit] at h
        exact nomatch h
      · rw [if_neg hlimit] at h
        obtain ⟨js, -, rfl⟩ := Option.map_eq_some_iff.mp h
        rfl

/-- No NaN occurs in the values of written items. -/
theorem itemsHaveNaN_eq_false_of_ofItems? : ∀ (ws : List Written) (limit : Nat) (js : List Json),
    ofItems? limit ws = some js → itemsHaveNaN (ofAnyJsonItems js) = false
  | [], _, _, h => by
      cases h
      rfl
  | w :: ws, limit, js, h => by
      rw [ofItems?] at h
      split at h
      · rename_i j js' hj hjs
        cases h
        rw [ofAnyJsonItems, itemsHaveNaN, hasNaN_eq_false_of_ofWritten? w limit j hj,
          itemsHaveNaN_eq_false_of_ofItems? ws limit js' hjs]
        rfl
      · exact nomatch h

end

/-- **No text spells a value in which a NaN occurs.** -/
theorem hasNaN_ofLiteral (s : String) : (ofLiteral s).hasNaN = false := by
  rw [ofLiteral]
  cases h : Json.read? s with
  | none => rfl
  | some j =>
      rw [Json.read?] at h
      obtain ⟨w, -, hw⟩ := Option.bind_eq_some_iff.mp h
      exact hasNaN_eq_false_of_ofWritten? w nestingLimit j hw

end Value

/-- A value without NaN has none as a kind sees it. -/
theorem Kind.hasNaN_coerce (k : Kind) {w : Value} (h : w.hasNaN = false) :
    (k.coerce w).hasNaN = false := by
  have hsees := k.sees_coerce w
  generalize k.coerce w = seen at hsees ⊢
  cases hsees with
  | same => exact h
  | list =>
      rw [Value.hasNaN, Value.itemsHaveNaN, h]
      rfl
  | number hd => exact isNaN_eq_false_of_readDouble? hd
  | _ => rfl

/-- The value of an operand is the literal it was made of. -/
theorem Operand.eq_of_ofLiteral {u w : Value} (h : ofLiteral u = .value w) : w = u := by
  rw [← literal_ofLiteral u, h]
  rfl

/-- The value that a clause expression compares with is spelled by a text, or is nothing. -/
theorem Clause.operand_of_ofExpression {expression : String} {c : Clause} {w : Value}
    (h : ofExpression expression = .ok c) (hw : c.operand = .value w) :
    w = .null ∨ ∃ s, w = Value.ofLiteral s := by
  cases ofExpression_eq_iff.mp h with
  | clause p op hp hkey hop =>
      have hmeaning : w = p.meaning := Operand.eq_of_ofLiteral hw
      rw [hmeaning, Parts.meaning]
      split
      · exact Or.inr ⟨_, rfl⟩
      · exact Or.inl rfl

/-- No NaN occurs in it. -/
theorem Clause.hasNaN_eq_false_of_ofExpression {expression : String} {c : Clause} {w : Value}
    (h : ofExpression expression = .ok c) (hw : c.operand = .value w) : w.hasNaN = false := by
  rcases operand_of_ofExpression h hw with rfl | ⟨s, rfl⟩
  · rfl
  · exact Value.hasNaN_ofLiteral s

end VaultQuery
