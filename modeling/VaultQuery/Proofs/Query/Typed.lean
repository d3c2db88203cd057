import VaultQuery.Proofs.Json.Rounding
import VaultQuery.Proofs.Json.Scalar
import VaultQuery.Proofs.Query.Grammar
import VaultQuery.Proofs.Query.OwnText

/-! # Finding a stored text by typing it

    The value of an expression is read as JSON first and then seen by the kind of the field; a
    stored text is only seen by the kind. Whether the two ends meet depends on what the text
    means as JSON, and on the kind.

    * `Clause.ofExpression_typed`: the clause of a typed equality;
    * `Query.acceptsTyped_iff`: what its query compares;
    * `Query.accepts_typed`: a stored text that is no JSON is found by typing it. One that spells
      a number or truth value is found under every kind but `text`, a number if it is read as
      the double nearest to it, and under the kind `text` if it is the text form of what it
      spells;
    * `Query.not_accepts_typed`: so it is not found under every kind. -/

namespace VaultQuery

open Text

variable {v : Vault} {name t : String} {k : Kind} {d : Document} {w : Value} {s : Settings}
  {context : Option Document}

/-! ## The clause of an expression -/

namespace Clause

/-- The name can be written as the key of an expression as it is. -/
def IsTypable (name : String) : Prop := Trimmed name.toList ∧ ':' ∉ name.toList

/-- Such a name is a key, unless it is reserved. -/
theorem IsTypable.isKeyName (h : IsTypable name) (hfield : isReserved name = false) :
    IsKeyName name where
  ne_empty := by
    rintro rfl
    cases hfield
  trimmed := h.1
  colon_not_mem := h.2

/-- An equality that is typed compares a field with what its last part means. -/
theorem ofExpression_typed (hname : IsTypable name) (hfield : isReserved name = false)
    (t : String) :
    ofExpression (name ++ ":eq:" ++ t)
      = .ok ⟨.field name, .eq, .ofLiteral (Value.ofLiteral t)⟩ := by
  have htext : name ++ ":eq:" ++ t = name ++ ":" ++ Operator.eq.name ++ ":" ++ t := by
    rw [String.append_assoc, String.append_assoc, String.append_assoc, String.append_assoc]
    rfl
  rw [htext, ofExpression_full (hname.isKeyName hfield), literal,
    Key.ofName_of_not_reserved hfield]

end Clause

/-- A text that is one numeral with a point or an exponent means a fraction. -/
theorem Json.read?_of_written {n : Numeral} (h : Written.read? t.toList = some (.number n))
    (hfraction : (n.fraction.isEmpty && n.exponent.isNone) = false) :
    Json.read? t = n.real?.map fun x => ofNumber (.real x) := by
  rw [Json.read?, h, Option.bind_some, ofWritten?, Numeral.number?_eq_real? hfraction,
    Option.map_map]
  rfl

namespace Query

/-- The query compiled from one expression accepts the document. -/
def AcceptsTyped (v : Vault) (expression : String) (context : Option Document) (s : Settings)
    (d : Document) : Prop :=
  ∃ c q, Clause.ofExpression expression = .ok c ∧ compile v [c] [] context s = .ok q ∧
    q.accepts d = .ok true

/-- The query of a typed equality compares the stored value with what is typed, both seen by
    the kind of the field. -/
theorem acceptsTyped_iff (hname : Clause.IsTypable name)
    (hkind : v.resolve (.field name) = .ok (.field name k)) {u : Value}
    (hstored : d.field? name = some u)
    (hliteral : Operand.ofLiteral (Value.ofLiteral t) = .value w) :
    AcceptsTyped v (name ++ ":eq:" ++ t) context s d ↔
      (k.coerce u).looseEqual (k.coerce w) = true := by
  have hclause := Clause.ofExpression_typed hname (Vault.isReserved_eq_false_of_resolve hkind) t
  rw [hliteral] at hclause
  obtain ⟨q, hq, haccepts⟩ := exists_equality hkind w context s
  rw [← haccepts d u hstored]
  constructor
  · rintro ⟨c, q', hc, hq', h⟩
    cases hclause.symm.trans hc
    cases hq.symm.trans hq'
    exact h
  · exact fun h => ⟨_, q, hclause, hq, h⟩

/-- **Which stored texts are found by typing them**, whatever kind is declared. Text that is no
    JSON is. Text that is a truth value or number in JSON asks for that value: under every kind
    but `text` it is found, a number wherever its reading is the double nearest to it, as it is
    for integers of 64 bits and for few digits times a small power of ten; under the kind `text`
    it is found exactly when it is the text form of that value. -/
theorem accepts_typed (hname : Clause.IsTypable name)
    (hkind : v.resolve (.field name) = .ok (.field name k))
    (hstored : d.field? name = some (.text t)) (hsentinel : t ≠ linkLiteral)
    (context : Option Document) (s : Settings) :
    (Json.read? t = none → AcceptsTyped v (name ++ ":eq:" ++ t) context s d) ∧
      (∀ b, Json.read? t = some (.bool b) →
        (k ≠ .text → AcceptsTyped v (name ++ ":eq:" ++ t) context s d) ∧
        (k = .text →
          (AcceptsTyped v (name ++ ":eq:" ++ t) context s d ↔ t = Value.boolText b))) ∧
      ∀ x, Json.read? t = some (Json.ofNumber x) →
        ∃ n, Json.Numeral.read? (trimChars t.toList) = some n ∧ n.number? = some x ∧
          (k ≠ .text → n.IsWord ∨ n.IsShort ∨ x.double = n.decimal.nearest →
            AcceptsTyped v (name ++ ":eq:" ++ t) context s d) ∧
          (k = .text → (AcceptsTyped v (name ++ ":eq:" ++ t) context s d ↔
            t = Layout.plain.write x.double)) := by
  refine ⟨fun hnone => ?_, fun b hbool => ⟨fun hk => ?_, ?_⟩, fun x hnumber => ?_⟩
  · have hliteral : Operand.ofLiteral (Value.ofLiteral t) = .value (.text t) := by
      rw [Value.ofLiteral, hnone, Operand.ofLiteral, if_neg hsentinel]
    rw [acceptsTyped_iff hname hkind hstored hliteral]
    exact (Value.looseEqual_self_iff _).mpr (Kind.hasNaN_coerce k rfl)
  · have hliteral : Operand.ofLiteral (Value.ofLiteral t) = .value (.bool b) := by
      rw [Value.ofLiteral, hbool]
      rfl
    rw [acceptsTyped_iff hname hkind hstored hliteral, Value.looseEqual_comm]
    refine Kind.looseEqual_coerce hk ?_
    rw [Value.looseEqual, Json.readBool?_of_read? hbool, beq_self_eq_true]
  · have hliteral : Operand.ofLiteral (Value.ofLiteral t) = .value (.bool b) := by
      rw [Value.ofLiteral, hbool]
      rfl
    rintro rfl
    rw [acceptsTyped_iff hname hkind hstored hliteral]
    exact beq_iff_eq
  · have hliteral : Operand.ofLiteral (Value.ofLiteral t) = .value (.number x.double) := by
      rw [Value.ofLiteral, hnumber]
      cases x <;> rfl
    obtain ⟨n, hn, hx⟩ := Json.exists_numeral_of_read? hnumber
    have hfinite := Json.Numeral.isFinite_of_number? hx
    refine ⟨n, hn, hx, fun hk hexact => ?_, ?_⟩
    · have hnearest : x.double = n.decimal.nearest := by
        rcases hexact with hword | hshort | hnearest
        · exact Json.Numeral.double_of_isExact (Or.inl hword) hx
        · exact Json.Numeral.double_of_isExact (Or.inr hshort) hx
        · exact hnearest
      rw [acceptsTyped_iff hname hkind hstored hliteral, Value.looseEqual_comm]
      refine Kind.looseEqual_coerce hk ?_
      rw [hnearest] at hfinite ⊢
      rw [Value.looseEqual, Value.spellsNumber, Json.Numeral.readDouble?_of_read? hn hfinite]
      exact Double.equal_self_iff.mpr (Double.isNaN_eq_false_of_isFinite hfinite)
    · rintro rfl
      rw [acceptsTyped_iff hname hkind hstored hliteral]
      exact beq_iff_eq

theorem isShort_rating : Json.Numeral.IsShort ⟨false, ['1'], ['0'], none⟩ :=
  ⟨by decide, by decide⟩

theorem read?_rating :
    Json.read? "1.0" = some (Json.ofNumber (.real (Decimal.nearest ⟨false, 10, -1⟩))) := by
  have hwritten : Json.Written.read? "1.0".toList
      = some (.number ⟨false, ['1'], ['0'], none⟩) := by rfl
  rw [Json.read?_of_written hwritten rfl, Json.Numeral.real?_of_isShort isShort_rating]
  rfl

theorem read?_large :
    Json.read? "3e23" = (Json.Numeral.real? ⟨false, ['3'], [], some 23⟩).map
      fun x => Json.ofNumber (.real x) := by
  have hwritten : Json.Written.read? "3e23".toList
      = some (.number ⟨false, ['3'], [], some 23⟩) := by rfl
  exact Json.read?_of_written hwritten rfl

theorem isTypable_rating : Clause.IsTypable "rating" :=
  ⟨trimmed_of_all (by decide), by decide⟩

theorem resolve_rating (rating : String) (kind : Kind) :
    (Sample.ratings rating kind).resolve (.field "rating") = .ok (.field "rating" kind) := rfl

theorem field?_rating (rating : String) :
    (Sample.rated rating).field? "rating" = some (.text rating) := rfl

/-- A rating that is a text is found by typing it where ratings are numbers. -/
theorem accepts_typed_of_rating :
    "1.0" ≠ linkLiteral ∧
      AcceptsTyped (Sample.ratings "1.0" .number) "rating:eq:1.0" none .default
        (Sample.rated "1.0") := by
  have hsentinel : "1.0" ≠ linkLiteral := by decide
  obtain ⟨-, -, hnumber⟩ := accepts_typed isTypable_rating (resolve_rating "1.0" .number)
    (field?_rating "1.0") hsentinel none .default
  obtain ⟨n, hn, -, hfound, -⟩ := hnumber _ read?_rating
  have hnumeral : Json.Numeral.read? (trimChars "1.0".toList)
      = some ⟨false, ['1'], ['0'], none⟩ := rfl
  cases hnumeral.symm.trans hn
  exact ⟨hsentinel, hfound (by decide) (Or.inr (Or.inl isShort_rating))⟩

/-- **Not every number that is stored as a text is found by typing it.** Where ratings are
    texts, `1.0` asks for the number whose text is `1`; and `3e23` is rounded twice by the reader
    of JSON, so that it asks for the double beside the one that the text spells. -/
theorem not_accepts_typed :
    Clause.IsTypable "rating" ∧
      (∀ rating kind,
        (Sample.ratings rating kind).resolve (.field "rating") = .ok (.field "rating" kind) ∧
        (Sample.rated rating).field? "rating" = some (.text rating)) ∧
      ("1.0" ≠ linkLiteral ∧ (∃ x, Json.read? "1.0" = some (Json.ofNumber x)) ∧
        ¬ AcceptsTyped (Sample.ratings "1.0" .text) "rating:eq:1.0" none .default
          (Sample.rated "1.0")) ∧
      "3e23" ≠ linkLiteral ∧ (∃ x, Json.read? "3e23" = some (Json.ofNumber x)) ∧
        ¬ AcceptsTyped (Sample.ratings "3e23" .any) "rating:eq:3e23" none .default
          (Sample.rated "3e23") := by
  refine ⟨isTypable_rating, fun rating kind => ⟨rfl, rfl⟩,
    ⟨by decide, ⟨_, read?_rating⟩, fun h => ?_⟩, by decide, ?_⟩
  · have hliteral : Operand.ofLiteral (Value.ofLiteral "1.0")
        = .value (.number (Decimal.nearest ⟨false, 10, -1⟩)) := by
      rw [Value.ofLiteral, read?_rating]
      rfl
    have hequal := (acceptsTyped_iff isTypable_rating (resolve_rating "1.0" .text)
      (field?_rating "1.0") hliteral).mp h
    have hform : "1.0" ≠ Layout.plain.write (Decimal.nearest ⟨false, 10, -1⟩) := by
      decide +kernel
    exact hform (beq_iff_eq.mp hequal)
  · have hread := read?_large
    have hsome : (Json.Numeral.real? ⟨false, ['3'], [], some 23⟩).isSome = true := by
      decide +kernel
    have hbeside : (Json.Numeral.real? ⟨false, ['3'], [], some 23⟩).all
        (fun x => !Value.spellsNumber "3e23" x) = true := by
      decide +kernel
    obtain ⟨x, hx⟩ := Option.isSome_iff_exists.mp hsome
    rw [hx] at hread hbeside
    refine ⟨⟨.real x, hread⟩, fun h => ?_⟩
    have hliteral : Operand.ofLiteral (Value.ofLiteral "3e23") = .value (.number x) := by
      rw [Value.ofLiteral, hread]
      rfl
    have hequal : Value.spellsNumber "3e23" x = true :=
      (acceptsTyped_iff isTypable_rating (resolve_rating "3e23" .any)
        (field?_rating "3e23") hliteral).mp h
    rw [Option.all_some, hequal] at hbeside
    cases hbeside

end Query
end VaultQuery
