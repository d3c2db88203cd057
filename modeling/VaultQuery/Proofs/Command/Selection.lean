import VaultQuery.Command.Basic
import VaultQuery.Proofs.Failure.Steps

/-! # What a selection lists

    A selection walks all documents of the vault and sorts those that pass. Sorting moves
    documents and loses none, so that a document is listed exactly when it is in the vault and
    passes; the only way to fail is a document that cannot be tested.

    * `Report.Lists`: the document is among those found;
    * `Query.mem_matching`, `Query.exists_matching_iff`: what a query finds in a vault, and
      when it finds it;
    * `Query.exists_report`: the same for reports;
    * `Vault.select_eq_ok_iff`: the steps of a selection. -/

namespace VaultQuery

/-- The document is among those found. -/
def Report.Lists (r : Report) (d : Document) : Prop := d ∈ r.listed.map (·.document)

namespace Query

variable {q : Query} {v : Vault} {d : Document} {ds found : List Document}

theorem accepted_cons_eq_ok_iff :
    q.accepted (d :: ds) = .ok found ↔
      ∃ b rest, q.accepts d = .ok b ∧ q.accepted ds = .ok rest ∧
        found = if b then d :: rest else rest := by
  rw [accepted]
  cases q.accepts d with
  | error e => simp
  | ok b =>
      cases b with
      | true =>
          simp only [map_eq_ok_iff]
          constructor
          · rintro ⟨rest, hrest, rfl⟩
            exact ⟨true, rest, rfl, hrest, rfl⟩
          · rintro ⟨_, rest, hb, hrest, rfl⟩
            cases hb
            exact ⟨rest, hrest, rfl⟩
      | false =>
          constructor
          · intro h
            exact ⟨false, found, rfl, h, rfl⟩
          · rintro ⟨_, rest, hb, hrest, rfl⟩
            cases hb
            exact hrest

theorem mem_accepted (h : q.accepted ds = .ok found) :
    d ∈ found ↔ d ∈ ds ∧ q.accepts d = .ok true := by
  induction ds generalizing found with
  | nil =>
      cases h
      simp
  | cons a ds ih =>
      obtain ⟨b, rest, hb, hrest, rfl⟩ := accepted_cons_eq_ok_iff.mp h
      have htail := ih hrest
      rw [List.mem_cons]
      cases b with
      | true =>
          rw [if_pos rfl, List.mem_cons, htail]
          constructor
          · rintro (rfl | ⟨hd, hpass⟩)
            · exact ⟨Or.inl rfl, hb⟩
            · exact ⟨Or.inr hd, hpass⟩
          · rintro ⟨heq | hd, hpass⟩
            · exact Or.inl heq
            · exact Or.inr ⟨hd, hpass⟩
      | false =>
          rw [if_neg Bool.false_ne_true, htail]
          constructor
          · rintro ⟨hd, hpass⟩
            exact ⟨Or.inr hd, hpass⟩
          · rintro ⟨heq | hd, hpass⟩
            · rw [heq, hb] at hpass
              exact nomatch hpass
            · exact ⟨hd, hpass⟩

/-- A walk ends exactly when every document can be tested. -/
theorem exists_accepted_iff :
    (∃ found, q.accepted ds = .ok found) ↔ ∀ d ∈ ds, ∃ b, q.accepts d = .ok b := by
  induction ds with
  | nil => exact ⟨fun _ _ h => (nomatch h), fun _ => ⟨[], rfl⟩⟩
  | cons a ds ih =>
      rw [List.forall_mem_cons, ← ih]
      constructor
      · rintro ⟨found, h⟩
        obtain ⟨b, rest, hb, hrest, -⟩ := accepted_cons_eq_ok_iff.mp h
        exact ⟨⟨b, hb⟩, rest, hrest⟩
      · rintro ⟨⟨b, hb⟩, rest, hrest⟩
        exact ⟨_, accepted_cons_eq_ok_iff.mpr ⟨b, rest, hb, hrest, rfl⟩⟩

/-- Sorting moves documents and loses none. -/
theorem sortByFields_perm (fields : List (SortField × Attribute)) (ds : List Document) :
    (sortByFields fields ds).Perm ds := by
  induction fields generalizing ds with
  | nil => exact List.Perm.refl ds
  | cons field fields ih => exact (ih (sortByField field ds)).trans (List.mergeSort_perm ..)

/-- A query finds the documents of the vault that pass it. -/
theorem mem_matching (h : q.matching v = .ok found) :
    d ∈ found ↔ d ∈ v.documentList ∧ q.accepts d = .ok true := by
  obtain ⟨ds, hds, rfl⟩ := map_eq_ok_iff.mp h
  rw [sort, (sortByFields_perm q.sortFields ds).mem_iff]
  exact mem_accepted hds

/-- A query finds them exactly when every document of the vault can be tested. -/
theorem exists_matching_iff :
    (∃ found, q.matching v = .ok found) ↔ ∀ d ∈ v.documentList, ∃ b, q.accepts d = .ok b := by
  rw [← exists_accepted_iff]
  constructor
  · rintro ⟨found, h⟩
    obtain ⟨ds, hds, -⟩ := map_eq_ok_iff.mp h
    exact ⟨ds, hds⟩
  · rintro ⟨ds, hds⟩
    exact ⟨q.sort ds, map_eq_ok_iff.mpr ⟨ds, hds, rfl⟩⟩

/-- A report on documents found lists exactly these. -/
theorem lists_linked_iff {values : List String} {affected : List Linked}
    {messages : List Message} :
    Report.Lists ⟨affected, ds.map v.linked, values, messages⟩ d ↔ d ∈ ds := by
  simp [Report.Lists, Vault.linked, Function.comp_def]

/-- A query that can test everything has a report, which lists what passes. -/
theorem exists_report (h : ∀ d, ∃ b, q.accepts d = .ok b) (v : Vault) :
    ∃ r, q.report v = .ok r ∧
      ∀ d, r.Lists d ↔ d ∈ v.documentList ∧ q.accepts d = .ok true := by
  obtain ⟨found, hfound⟩ := exists_matching_iff.mpr fun d (_ : d ∈ v.documentList) => h d
  refine ⟨_, map_eq_ok_iff.mpr ⟨found, hfound, rfl⟩, fun d => ?_⟩
  rw [lists_linked_iff]
  exact mem_matching hfound

end Query

namespace Vault

variable {v : Vault} {s : Settings} {expressions sort : List String} {context : Option String}

/-- A selection reads clauses and sort fields, looks up the context, makes the query ready and
    reports on it. -/
theorem select_eq_ok_iff {r : Report} :
    v.select s expressions sort context = .ok r ↔
      ∃ clauses fields c q, collect Clause.ofExpression expressions = .ok clauses ∧
        collect SortField.ofExpression sort = .ok fields ∧ v.contextDocument context = .ok c ∧
        Query.compile v clauses fields c s = .ok q ∧ q.report v = .ok r := by
  simp only [select, queryExpressions, query, bind_eq_ok_iff]
  constructor
  · rintro ⟨q, ⟨clauses, hclauses, fields, hfields, c, hc, hq⟩, hr⟩
    exact ⟨clauses, fields, c, q, hclauses, hfields, hc, hq, hr⟩
  · rintro ⟨clauses, fields, c, q, hclauses, hfields, hc, hq, hr⟩
    exact ⟨q, ⟨clauses, hclauses, fields, hfields, c, hc, hq⟩, hr⟩

end Vault
end VaultQuery
