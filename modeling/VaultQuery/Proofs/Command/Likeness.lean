import VaultQuery.Proofs.Command.Members

/-! # Vaults that look alike

    A query sees of a document its path, whether it has a frontmatter block, and the values of
    attributes as the declared kinds see them. Documents may be stored differently as long as
    these agree: selections list the same paths in the same order, or fail alike.

    * `Vault.LooksLike`: two vaults whose documents agree one by one;
    * `Query.accepts_congr`: a query answers for a document what it answers for its image;
    * `Query.accepted_map`, `Query.sortByFields_map`: what is found, and in which order, among
      images;
    * `Vault.LooksLike.select`: selections on both vaults list the same paths. -/

namespace VaultQuery

/-! ## One document -/

section Document

variable {d d' : Document} {link : Option String}

theorem Test.holds_congr {t : Test} (h : t.subject.value d' = t.subject.value d) :
    t.holds d' link = t.holds d link := by
  rw [holds, holds]
  cases t.value link with
  | error e => rfl
  | ok w =>
      show t.clause.op.holds t.subject d' w link = t.clause.op.holds t.subject d w link
      cases t.clause.op <;> simp only [Operator.holds, h]

namespace Query

theorem allHold_congr {ts : List Test}
    (h : ∀ t ∈ ts, t.subject.value d' = t.subject.value d) :
    allHold d' link ts = allHold d link ts := by
  induction ts with
  | nil => rfl
  | cons t ts ih =>
      obtain ⟨ht, hts⟩ := List.forall_mem_cons.mp h
      rw [allHold, allHold, Test.holds_congr ht, ih hts]

/-- A query answers alike for documents that both have a block or both have none, and whose
    tested attributes agree. -/
theorem accepts_congr {q : Query} (hblock : d'.frontmatter.isNone = d.frontmatter.isNone)
    (h : ∀ t ∈ q.tests, t.subject.value d' = t.subject.value d) : q.accepts d' = q.accepts d := by
  rw [accepts, accepts, hblock, allHold_congr h]

end Query
end Document

/-! ## All documents -/

namespace Query

variable {g : Document → Document} {ds : List Document}

/-- The images that pass are the images of the documents that pass. -/
theorem accepted_map {q q' : Query} (h : ∀ d ∈ ds, q'.accepts (g d) = q.accepts d) :
    q'.accepted (ds.map g) = (q.accepted ds).map (List.map g) := by
  induction ds with
  | nil => rfl
  | cons d ds ih =>
      obtain ⟨hd, hds⟩ := List.forall_mem_cons.mp h
      rw [List.map_cons, accepted, accepted, hd, ih hds]
      cases q.accepts d with
      | error e => rfl
      | ok b =>
          cases b with
          | false => rfl
          | true =>
              cases q.accepted ds with
              | error e => rfl
              | ok found => rfl

theorem sortByField_map {field : SortField × Attribute}
    (h : ∀ d ∈ ds, field.2.value (g d) = field.2.value d) :
    sortByField field (ds.map g) = (sortByField field ds).map g := by
  rw [sortByField, sortByField]
  refine (List.map_mergeSort fun a ha b hb => ?_).symm
  rw [h a ha, h b hb]

/-- Images are sorted as the documents are. -/
theorem sortByFields_map {fields : List (SortField × Attribute)}
    (h : ∀ field ∈ fields, ∀ d ∈ ds, field.2.value (g d) = field.2.value d) :
    sortByFields fields (ds.map g) = (sortByFields fields ds).map g := by
  induction fields generalizing ds with
  | nil => rfl
  | cons field fields ih =>
      obtain ⟨hfield, hfields⟩ := List.forall_mem_cons.mp h
      show sortByFields fields (sortByField field (ds.map g))
        = (sortByFields fields (sortByField field ds)).map g
      rw [sortByField_map hfield]
      refine ih fun f hf d hd => hfields f hf d ?_
      exact (List.mergeSort_perm ds _).mem_iff.mp hd

/-- The attributes of sort fields are what their keys stand for. -/
theorem resolve_of_mem_sortFields {v : Vault} {clauses : List Clause} {sort : List SortField}
    {context : Option Document} {s : Settings} {q : Query}
    (h : compile v clauses sort context s = .ok q) {field : SortField × Attribute}
    (hfield : field ∈ q.sortFields) : v.resolve field.1.key = .ok field.2 := by
  obtain ⟨-, hfields, -⟩ := compile_eq_ok_iff.mp h
  obtain ⟨f, -, hf⟩ := (mem_collect hfields).mp hfield
  obtain ⟨a, ha, rfl⟩ := map_eq_ok_iff.mp hf
  exact ha

end Query

/-! ## Two vaults -/

/-- The documents of `w` are the images of those of `v`, and queries cannot tell a document
    from its image. -/
structure Vault.LooksLike (w v : Vault) (g : Document → Document) : Prop where
  properties : w.properties = v.properties
  documentList : w.documentList = v.documentList.map g
  path : ∀ d ∈ v.documentList, (g d).path = d.path
  block : ∀ d ∈ v.documentList, (g d).frontmatter.isNone = d.frontmatter.isNone
  value : ∀ d ∈ v.documentList, ∀ key a, v.resolve key = .ok a → a.value (g d) = a.value d

namespace Vault.LooksLike

variable {w v : Vault} {g : Document → Document}

theorem resolve (h : w.LooksLike v g) (key : Key) : w.resolve key = v.resolve key := by
  cases key with
  | intrinsic i => rfl
  | field name => rw [Vault.resolve, Vault.resolve, kindOf, kindOf, h.properties]

theorem paths (h : w.LooksLike v g) :
    w.documentList.map (·.path) = v.documentList.map (·.path) := by
  rw [h.documentList, List.map_map]
  exact List.map_congr_left h.path

theorem link (h : w.LooksLike v g) {d : Document} (hd : d ∈ v.documentList) :
    w.link (g d) = v.link d :=
  link_congr h.paths (h.path d hd)

/-- The image of a document is found where the document is. -/
theorem document (h : w.LooksLike v g) (path : String) :
    w.document path = (v.document path).map g := by
  cases hd : v.document path with
  | ok d =>
      have hmem : d ∈ v.documentList := mem_of_document hd
      have himage : g d ∈ w.documentList := h.documentList ▸ List.mem_map_of_mem hmem
      have hpath : (g d).path = path := (h.path d hmem).trans (path_of_document hd)
      rw [← hpath]
      exact mem_documentList_iff.mp himage
  | error e =>
      cases hw : w.document path with
      | error e' => rw [error_of_document hd, error_of_document hw]; rfl
      -- a document found at the path would be the image of one that is not there
      | ok d' =>
          have hmem : d' ∈ v.documentList.map g := h.documentList ▸ mem_of_document hw
          obtain ⟨d, hfound, rfl⟩ := List.mem_map.mp hmem
          have hpath : d.path = path := (h.path d hfound).symm.trans (path_of_document hw)
          rw [mem_documentList_iff, hpath, hd] at hfound
          cases hfound

theorem contextDocument (h : w.LooksLike v g) (context : Option String) :
    w.contextDocument context = (v.contextDocument context).map (Option.map g) := by
  cases context with
  | none => rfl
  | some path =>
      rw [Vault.contextDocument, Vault.contextDocument, h.document]
      cases v.document path with
      | error e => rfl
      | ok d => rfl

/-- A query is made ready alike, but for the document that is its context. -/
theorem compile (h : w.LooksLike v g) {context : Option String} {c : Option Document}
    (hc : v.contextDocument context = .ok c) (clauses : List Clause) (sort : List SortField)
    (s : Settings) :
    Query.compile w clauses sort (c.map g) s
      = (Query.compile v clauses sort c s).map fun q => { q with context := c.map g } := by
  have hlink : (c.map g).map w.link = c.map v.link := by
    cases context with
    | none =>
        cases hc
        rfl
    | some path =>
        obtain ⟨d, hd, rfl⟩ := map_eq_ok_iff.mp hc
        exact congrArg some (h.link (mem_of_document hd))
  rw [Query.compile, Query.compile, Test.ofClause_congr h.resolve,
    Query.resolveSortField_congr h.resolve, hlink]
  cases collect (Test.ofClause v) (Query.inOrderOfWeight clauses) with
  | error e => rfl
  | ok tests =>
      cases collect (Query.resolveSortField v) sort.reverse with
      | error e => rfl
      | ok fields => rfl

section Compiled

variable {clauses : List Clause} {sort : List SortField} {c c' : Option Document}
  {s : Settings} {q : Query}

/-- A query finds the images of the documents it found. -/
theorem matching (h : w.LooksLike v g) (hq : Query.compile v clauses sort c s = .ok q) :
    ({ q with context := c' } : Query).matching w = (q.matching v).map (List.map g) := by
  have haccepts : ∀ d ∈ v.documentList,
      ({ q with context := c' } : Query).accepts (g d) = q.accepts d := by
    intro d hd
    refine Query.accepts_congr (h.block d hd) fun t ht => ?_
    obtain ⟨-, hresolve, -⟩ := Test.spec_ofClause (Query.isReady_of_mem_tests hq ht).1
    exact h.value d hd _ _ hresolve
  rw [Query.matching, Query.matching, h.documentList, Query.accepted_map haccepts]
  cases hfound : q.accepted v.documentList with
  | error e => rfl
  | ok found =>
      refine congrArg Except.ok (Query.sortByFields_map fun field hfield d hd => ?_)
      have hmem : d ∈ v.documentList := (Query.accepted_sublist hfound).subset hd
      exact h.value d hmem _ _ (Query.resolve_of_mem_sortFields hq hfield)

/-- Its report lists the same paths. -/
theorem report (h : w.LooksLike v g) (hq : Query.compile v clauses sort c s = .ok q) :
    (({ q with context := c' } : Query).report w).map Report.listedPaths
      = (q.report v).map Report.listedPaths := by
  rw [Query.report, Query.report, h.matching hq]
  cases hfound : q.matching v with
  | error e => rfl
  | ok found =>
      refine congrArg Except.ok ?_
      show ((found.map g).map w.linked).map (·.document.path)
        = (found.map v.linked).map (·.document.path)
      rw [List.map_map, List.map_map, List.map_map]
      exact List.map_congr_left fun d hd => h.path d ((Query.mem_matching hfound).mp hd).1

end Compiled

/-- **Selections on vaults that look alike list the same paths in the same order**, or fail
    with the same failure. -/
theorem select (h : w.LooksLike v g) (s : Settings) (clauses sort : List String)
    (context : Option String) :
    (w.select s clauses sort context).map Report.listedPaths
      = (v.select s clauses sort context).map Report.listedPaths := by
  simp only [Vault.select, queryExpressions, query, bind, Except.bind]
  cases collect Clause.ofExpression clauses with
  | error e => rfl
  | ok clauses =>
      cases collect SortField.ofExpression sort with
      | error e => rfl
      | ok fields =>
          rw [h.contextDocument]
          cases hc : v.contextDocument context with
          | error e => rfl
          | ok c =>
              show ((Query.compile w clauses fields (c.map g) s).bind _).map _
                = ((Query.compile v clauses fields c s).bind _).map _
              rw [h.compile hc]
              cases hq : Query.compile v clauses fields c s with
              | error e => rfl
              | ok q => exact h.report hq

end Vault.LooksLike
end VaultQuery
