import VaultQuery.Proofs.Json.Rounding
import VaultQuery.Proofs.Snapshot.Values
import VaultQuery.Proofs.Value.Readers

/-! # Values on one line

    A value printed on one line can be typed as the value of an expression. It is read as it is
    in a snapshot: texts, truth values and lists are what they were, and a number is what its
    digits are taken for.

    * `Double.readsBack_of_isShort`: few digits times a small power of ten mean the number;
    * `Value.reread_eq_self_iff`: nothing but a number taken for another makes a difference;
    * `Value.ofLiteral_compact`: what a printed value is read as. -/

namespace VaultQuery

/-! ## Numbers -/

namespace Double

open Json

variable {d : Double}

/-- The text of a finite number is read as its numeral is. -/
theorem read?_write_of_isFinite (h : d.isFinite = true) :
    Json.read? (Layout.json.write d) = (Numeral.ofDouble d).real?.map .real := by
  rw [read?_write, written, if_pos h, Json.ofWritten?, Numeral.number?_ofDouble, Option.map_map]
  rfl

/-- A number reads back exactly when its text means it. -/
theorem readsBack_iff : d.ReadsBack ↔ d.reread = .number d := by
  constructor
  · exact ReadsBack.reread
  · intro h
    rw [reread, Value.ofLiteral] at h
    by_cases hfinite : d.isFinite = true
    · obtain ⟨e, he⟩ := exists_number?_ofDouble hfinite
      rw [Numeral.number?_ofDouble] at he
      obtain ⟨x, hx, -⟩ := Option.map_eq_some_iff.mp he
      have hread := read?_write_of_isFinite hfinite
      rw [hx, Option.map_some] at hread
      rw [hread] at h
      cases h
      exact hread
    · -- what is not finite is printed as `null`
      rw [read?_write, written, if_neg hfinite] at h
      cases h

/-- The numeral that is printed for a number spells it. -/
theorem nearest_decimal_ofDouble (h : d.isFinite = true) :
    (Numeral.ofDouble d).decimal.nearest = d := by
  have hnegative : (Numeral.ofDouble d).decimal.nearest.negative = d.negative :=
    (Decimal.negative_nearest _).trans (Numeral.negative_ofDouble d)
  have hmagnitude := Decimal.magnitude_nearest_congr (c := (Numeral.ofDouble d).decimal)
    (Numeral.value_ofDouble d)
  rw [nearest_shortest .even h] at hmagnitude
  exact Double.ext hnegative hmagnitude

/-- **Few digits times a small power of ten mean the number** they are printed for. -/
theorem readsBack_of_isShort (h : d.isFinite = true) (hshort : (Numeral.ofDouble d).IsShort) :
    d.ReadsBack := by
  rw [ReadsBack, read?_write_of_isFinite h, Numeral.real?_of_isShort hshort,
    nearest_decimal_ofDouble h]
  rfl

end Double

/-! ## Values -/

namespace Value

open Json

mutual

/-- A value is read as itself exactly when all its numbers are. -/
theorem reread_eq_self_iff : ∀ v : Value, v.Dateless →
    (v.reread = v ↔ ∀ d, Value.number d ∈ v.scalars → d.ReadsBack)
  | .null, _ => by simp [reread, scalars]
  | .bool _, _ => by simp [reread, scalars]
  | .text _, _ => by simp [reread, scalars]
  | .date t, h => absurd (List.mem_singleton.mpr rfl) (h t)
  | .number d, _ => by
      rw [reread, ← Double.readsBack_iff]
      simp [scalars]
  | .list items, h => by
      rw [reread, scalars, Value.list.injEq]
      exact rereadItems_eq_self_iff items h

theorem rereadItems_eq_self_iff : ∀ vs : List Value, (∀ t, Value.date t ∉ scalarsOfItems vs) →
    (rereadItems vs = vs ↔ ∀ d, Value.number d ∈ scalarsOfItems vs → d.ReadsBack)
  | [], _ => by simp [rereadItems, scalarsOfItems]
  | v :: vs, h => by
      have hv := reread_eq_self_iff v fun t ht => h t (List.mem_append_left _ ht)
      have hvs := rereadItems_eq_self_iff vs fun t ht => h t (List.mem_append_right _ ht)
      rw [rereadItems, List.cons.injEq, hv, hvs, scalarsOfItems]
      simp only [List.mem_append, or_imp, forall_and]

end

/-- **A value printed on one line is read as in a snapshot**, unless its lists are nested too
    deep. -/
theorem ofLiteral_compact {v : Value} (h : v.depth ≤ nestingLimit) :
    ofLiteral v.toJson.compact = v.reread := by
  have hread := ofWritten?_toJson v nestingLimit
  rw [if_pos h, Value.ofWritten?] at hread
  obtain ⟨j, hj, hv⟩ := Option.bind_eq_some_iff.mp hread
  rw [ofLiteral, Json.read?, Written.read?_compact, Option.bind_some, hj]
  exact (eq_ofAnyJson hv).symm

end Value
end VaultQuery
