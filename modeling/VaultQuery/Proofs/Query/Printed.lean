import VaultQuery.Proofs.Query.Grammar
import VaultQuery.Proofs.Value.Printed

/-! # Clauses with printed values

    Every value can be typed as it is printed on one line: colons, quotes and brackets in it are
    no part of the grammar of expressions. What does not always come back is a number with many
    digits, since the reader of JSON rounds twice.

    * `Clause.ofExpression_printed`: what such a clause is read as;
    * `Clause.ofExpression_exact`: what is read at all, and when a printed value is read as
      itself;
    * `Clause.not_ofExpression_printed`: a number that is taken for its neighbour. -/

namespace VaultQuery

open Text

namespace Clause

variable {name : String}

/-- A clause whose value is printed on one line. -/
theorem ofExpression_printed (h : IsKeyName name) (op : Operator) {v : Value}
    (hdepth : v.depth ≤ Json.nestingLimit) :
    ofExpression (name ++ ":" ++ op.name ++ ":" ++ v.toJson.compact)
      = .ok (literal name op v.reread) := by
  rw [ofExpression_full h, Value.ofLiteral_compact hdepth]

theorem ofExpression_printed_eq_iff (h : IsKeyName name) (op : Operator) {v : Value}
    (hdates : v.Dateless) (hdepth : v.depth ≤ Json.nestingLimit) :
    ofExpression (name ++ ":" ++ op.name ++ ":" ++ v.toJson.compact) = .ok (literal name op v) ↔
      ∀ d, Value.number d ∈ v.scalars → d.ReadsBack := by
  rw [ofExpression_printed h op hdepth, Except.ok.injEq, literal_inj]
  exact Value.reread_eq_self_iff v hdates

/-- **Expressions are read as the grammar says, and values can be typed as they are printed.** An
    expression is a clause exactly when it has a colon, a key before it and the name of an
    operator after it, and what is none fails for the first of these that is missing. A clause
    of a key, an operator and a printed value is read as the clause of what the value is read as
    from JSON; this is the value itself exactly when its numbers read back, as they do when they
    have few digits. -/
theorem ofExpression_exact :
    (∀ expression r, ofExpression expression = r ↔ Means expression r) ∧
      (∀ expression, (∃ c, ofExpression expression = .ok c) ↔
        ∃ p : Parts, p.text = expression.toList ∧ p.keyName ≠ "" ∧
          ∃ op : Operator, op.name = p.opName) ∧
      ∀ name, IsKeyName name → ∀ (op : Operator) (v : Value), v.Dateless →
        (∀ d, Value.number d ∈ v.scalars → d.isFinite = true) → v.depth ≤ Json.nestingLimit →
        let read := ofExpression (name ++ ":" ++ op.name ++ ":" ++ v.toJson.compact)
        read = .ok (literal name op v.reread) ∧
          (read = .ok (literal name op v) ↔ ∀ d, Value.number d ∈ v.scalars → d.ReadsBack) ∧
          ((∀ d, Value.number d ∈ v.scalars → (Json.Numeral.ofDouble d).IsShort) →
            read = .ok (literal name op v)) := by
  refine ⟨fun _ _ => ofExpression_eq_iff, fun _ => exists_ofExpression_iff, ?_⟩
  intro name hname op v hdates hfinite hdepth read
  have hsame := ofExpression_printed_eq_iff hname op hdates hdepth
  refine ⟨ofExpression_printed hname op hdepth, hsame, fun hshort => hsame.mpr ?_⟩
  intro d hd
  exact Double.readsBack_of_isShort (hfinite d hd) (hshort d hd)

/-- A list with a colon and quotes in it, and with a list in it. -/
theorem ofExpression_exact_of_list :
    let half := Double.ofBits 0x3FE0000000000000
    let v := Value.list [.text "a:\"b\"", .list [.number half]]
    IsKeyName "tags" ∧ v.Dateless ∧
      ofExpression "tags:hasall:[\"a:\\\"b\\\"\",[0.5]]" = .ok (literal "tags" .hasAll v) := by
  intro half v
  have hname : IsKeyName "tags" := ⟨by decide, trimmed_of_all (by decide), by decide⟩
  have hscalars : ∀ w ∈ v.scalars, w = .text "a:\"b\"" ∨ w = .number half := by
    intro w hw
    simpa [v, Value.scalars, Value.scalarsOfItems] using hw
  have hdates : v.Dateless := by
    intro t ht
    rcases hscalars _ ht with h | h
    · cases h
    · cases h
  have hnumber : ∀ d, Value.number d ∈ v.scalars → d = half := by
    intro d hd
    rcases hscalars _ hd with h | h
    · cases h
    · exact Value.number.inj h
  have hfinite : half.isFinite = true := by decide +kernel
  have hshort : (Json.Numeral.ofDouble half).IsShort := ⟨by decide +kernel, by decide +kernel⟩
  have htext : "tags" ++ ":" ++ Operator.hasAll.name ++ ":" ++ v.toJson.compact
      = "tags:hasall:[\"a:\\\"b\\\"\",[0.5]]" := by
    decide +kernel
  obtain ⟨-, -, hread⟩ := ofExpression_exact.2.2 "tags" hname .hasAll v hdates
    (fun d hd => hnumber d hd ▸ hfinite) (by decide)
  rw [htext] at hread
  exact ⟨hname, hdates, hread fun d hd => hnumber d hd ▸ hshort⟩

/-- **Not every printed number is typed as itself.** The digits of this one are taken for those
    of its neighbour. -/
theorem not_ofExpression_printed :
    let d := Double.ofBits 0xF071CEF43F724C2F
    IsKeyName "n" ∧ (Value.number d).Dateless ∧ d.isFinite = true ∧
      "n" ++ ":" ++ Operator.eq.name ++ ":" ++ (Value.number d).toJson.compact
        = "n:eq:-4.423661694707218e+233" ∧
      ofExpression "n:eq:-4.423661694707218e+233"
        = .ok (literal "n" .eq (.number (.ofBits 0xF071CEF43F724C30))) ∧
      ofExpression "n:eq:-4.423661694707218e+233" ≠ .ok (literal "n" .eq (.number d)) := by
  intro d
  have hname : IsKeyName "n" := ⟨by decide, trimmed_of_all (by decide), by decide⟩
  have hdates : (Value.number d).Dateless := by
    intro t ht
    cases List.mem_singleton.mp ht
  have hfinite : d.isFinite = true := by decide +kernel
  have htext : "n" ++ ":" ++ Operator.eq.name ++ ":" ++ (Value.number d).toJson.compact
      = "n:eq:-4.423661694707218e+233" := by
    decide +kernel
  have hreal : (Json.Numeral.ofDouble d).real? = some (.ofBits 0xF071CEF43F724C30) := by
    decide +kernel
  have hreread : (Value.number d).reread = .number (.ofBits 0xF071CEF43F724C30) := by
    show d.reread = _
    rw [Double.reread, Value.ofLiteral, Double.read?_write_of_isFinite hfinite, hreal]
    rfl
  have hread := ofExpression_printed hname .eq (v := .number d) (Nat.zero_le _)
  rw [htext, hreread] at hread
  refine ⟨hname, hdates, hfinite, htext, hread, fun hsame => ?_⟩
  rw [hread, Except.ok.injEq, literal_inj, Value.number.injEq] at hsame
  have hne : Double.ofBits 0xF071CEF43F724C30 ≠ Double.ofBits 0xF071CEF43F724C2F := by
    decide +kernel
  exact hne hsame

end Clause
end VaultQuery
