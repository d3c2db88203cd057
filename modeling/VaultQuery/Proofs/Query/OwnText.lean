import VaultQuery.Proofs.Query.Conjunction
import VaultQuery.Proofs.Value.Spelling

/-! # A value is found by its own text form

    The value of a document and the value of a clause are seen through the same kind, each on
    its own, and then compared. Asking for the text form of what is stored finds it, whatever the
    kind: printing and reading numbers and dates undo each other, and no text is read as two
    things.

    * `Query.exists_equality`: a query of one equality compares two values seen by one kind;
    * `Query.accepts_ownText`: it finds a value by its own text form. -/

namespace VaultQuery.Query

variable {v : Vault} {name : String} {k : Kind} {d : Document} {w : Value}

/-- A query for the value of one field accepts the documents whose stored value equals it, both
    seen by the kind of the field. -/
theorem exists_equality (hkind : v.resolve (.field name) = .ok (.field name k)) (w : Value)
    (context : Option Document) (s : Settings) :
    ∃ q, compile v [⟨.field name, .eq, .value w⟩] [] context s = .ok q ∧
      ∀ d u, d.field? name = some u →
        (q.accepts d = .ok true ↔ (k.coerce u).looseEqual (k.coerce w) = true) := by
  have hop : Operator.eq ≠ .hasThis := by decide
  obtain ⟨q, hq, haccepts⟩ := exists_field hkind hop w context s
  refine ⟨q, hq, fun d u hu => ?_⟩
  have hvalue : (Attribute.field name k).value d = k.coerce u := by
    rw [Attribute.value, hu, Option.getD_some]
  have hblock : d.frontmatter.isSome = true := by
    rw [Document.field?] at hu
    obtain ⟨f, hf, -⟩ := Option.bind_eq_some_iff.mp hu
    rw [hf]
    rfl
  rw [haccepts, hvalue, hblock, Bool.true_and, Except.ok.injEq]
  exact Iff.rfl

/-- **A value is found by its own text form, whatever kind is declared.** A document that stores
    a truth value, a finite number, a text, or a date of the years 0 to 9999 is accepted by the
    query for the text form of that value, under every kind of the field. -/
theorem accepts_ownText (hkind : v.resolve (.field name) = .ok (.field name k))
    (hstored : d.field? name = some w) (hspelled : w.HasSpelling)
    (context : Option Document) (s : Settings) :
    ∃ text q, w.text? = some text ∧
      compile v [⟨.field name, .eq, .value (.text text)⟩] [] context s = .ok q ∧
      q.accepts d = .ok true := by
  obtain ⟨text, htext⟩ : ∃ text, w.text? = some text := by
    cases w with
    | null => exact hspelled.elim
    | _ => exact ⟨_, rfl⟩
  obtain ⟨q, hq, haccepts⟩ := exists_equality hkind (.text text) context s
  exact ⟨text, q, htext, hq,
    (haccepts d w hstored).mpr (Kind.looseEqual_coerce_ownText k hspelled htext)⟩

/-- A leap second is found by its own text in a field declared for dates. -/
theorem accepts_ownText_of_leapSecond :
    let d : Document := ⟨"A.md", Sample.moment, Sample.moment,
      some (.ofList [("due", .date Sample.leapSecond)])⟩
    ∃ q, compile ((Vault.ofDocuments [d]).declareAll Sample.deadlines)
        [⟨.field "due", .eq, .value (.text "2016-12-31T23:59:60.500+00:00")⟩] [] none .default
        = .ok q ∧
      q.accepts d = .ok true := by
  intro d
  have hkind : ((Vault.ofDocuments [d]).declareAll Sample.deadlines).resolve (.field "due")
      = .ok (.field "due" .date) := rfl
  obtain ⟨text, q, htext, hq, haccepts⟩ :=
    accepts_ownText (d := d) (w := .date Sample.leapSecond) hkind rfl (by decide) none .default
  have hform : text = "2016-12-31T23:59:60.500+00:00" :=
    (Option.some.inj htext).symm.trans (by decide)
  exact ⟨q, hform ▸ hq, haccepts⟩

end VaultQuery.Query
