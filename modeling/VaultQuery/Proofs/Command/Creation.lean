import VaultQuery.Proofs.Command.Selection
import VaultQuery.Proofs.Query.Enforcement
import VaultQuery.Proofs.Text.Edges
import VaultQuery.Proofs.Value.Literal
import VaultQuery.Proofs.Vault.Links

/-! # A new document and the view it is created from

    The clauses of a view are enforced in the vault as it is before the new document is
    there, and tested in the vault that has it. Between the two only links can differ: the new
    document may take the name by which the context was known.

    * `Clause.IsDescription`: clauses that say what a document is to hold, and `IsTemplate`:
      such clauses on different fields;
    * `Query.metBy_of_enforce_iff`: what enforcing a template writes meets a clause under
      another link, unless the clause asks for the link;
    * `Query.accepts_insert_iff`: so the new document passes if links stay;
    * `newDocument_eq_ok_iff`: the steps of a creation;
    * `lists_newDocument_iff`: the new document is in the view exactly when it does not take
      the context's name, or no clause asks for the link of the context. -/

namespace VaultQuery

/-! ## Clauses that describe a document -/

/-- The clause asks for a value, for items of a list, or for the context's link in a list. -/
def Clause.IsDescription (c : Clause) : Prop :=
  (c.op = .eq ∧ c.operand.isDynamic = false) ∨ c.op = .hasAll ∨ c.op = .hasThis

instance (c : Clause) : Decidable c.IsDescription :=
  inferInstanceAs (Decidable (_ ∨ _ ∨ _))

/-- No NaN occurs in the value of the clause. -/
def Clause.IsOrdinary (c : Clause) : Prop := ∀ w, c.operand = .value w → w.hasNaN = false

namespace Clause

variable {v v' : Vault} {link link' : Option String} {c : Clause} {f : Frontmatter}
  {name : String}

theorem IsDescription.canEnforce (h : c.IsDescription) : c.op.canEnforce = true := by
  rcases h with ⟨hop, -⟩ | hop | hop
  · rw [hop]
    rfl
  · rw [hop]
    rfl
  · rw [hop]
    rfl

/-- Descriptions that ask for the link have it as their only item. -/
theorem IsDescription.needsLink (h : c.IsDescription) (hneeds : c.NeedsLink) :
    c.op = .hasThis ∨ (c.op = .hasAll ∧ c.operand = .linkToThis) := by
  rcases hneeds with hop | hdyn
  · exact Or.inl hop
  · rcases h with ⟨-, hstatic⟩ | hop | hop
    · rw [hstatic] at hdyn
      exact nomatch hdyn
    · refine Or.inr ⟨hop, ?_⟩
      cases ho : c.operand with
      | value w =>
          rw [ho] at hdyn
          exact nomatch hdyn
      | linkToThis => rfl
    · exact Or.inl hop

/-- Without a NaN there is a value that meets a description. -/
theorem IsDescription.not_neverMet (h : c.IsDescription) (hordinary : c.IsOrdinary) :
    ¬ c.NeverMet v link := by
  rintro ⟨a, w, -, hw, hnever⟩
  have hnan : w.hasNaN = false := by
    cases ho : c.operand with
    | value u =>
        rw [ho] at hw
        cases hw
        exact a.kind.hasNaN_coerce (hordinary u ho)
    | linkToThis =>
        rw [ho] at hw
        obtain ⟨l, -, rfl⟩ := Operand.resolve_linkToThis.mp hw
        rfl
  rcases hnever with ⟨-, hhas⟩ | ⟨hop, -⟩ | ⟨hop, hdyn, -⟩
  · rw [hnan] at hhas
    exact nomatch hhas
  · rcases h with ⟨heq, -⟩ | heq | heq <;> simp [heq] at hop
  · rcases h with ⟨-, hstatic⟩ | heq | heq
    · rw [hstatic] at hdyn
      exact nomatch hdyn
    · simp [heq] at hop
    · simp [heq] at hop

/-- A clause that does not ask for the link is met whatever the link is. -/
theorem metBy_of_not_needsLink (h : ¬ c.NeedsLink) (hmet : c.MetBy v link f) :
    c.MetBy v link' f := by
  obtain ⟨name, w, hc, hw, hpass⟩ := hmet
  refine ⟨name, w, hc, ?_, ?_⟩
  · cases ho : c.operand with
    | value u =>
        rw [ho] at hw
        exact hw
    | linkToThis => exact absurd (Or.inr (by rw [ho]; rfl)) h
  · cases hop : c.op with
    | hasThis => exact absurd (Or.inl hop) h
    | _ =>
        rw [hop] at hpass
        exact hpass

/-- A new document changes no kind, and so not what meets a clause. -/
theorem metBy_insert {n : Document} (h : v.insert n = .ok v') :
    c.MetBy v' link f ↔ c.MetBy v link f := by
  simp only [MetBy, Vault.fieldValue, Vault.kindOf_insert h]

/-- A description that asks for the link is met by a list with the link. -/
theorem IsDescription.metBy_iff (h : c.IsDescription) (hneeds : c.NeedsLink)
    (hc : c.OnField name) :
    c.MetBy v link f ↔
      ∃ l, link = some l ∧ Operator.holdsLink (v.fieldValue f name) l = true := by
  constructor
  · rintro ⟨n, w, hn, hw, hpass⟩
    cases hn.1.symm.trans hc.1
    rcases h.needsLink hneeds with hop | ⟨hop, ho⟩
    · rw [hop] at hpass
      exact hpass
    · rw [ho] at hw
      rw [hop] at hpass
      obtain ⟨l, hl, rfl⟩ := Operand.resolve_linkToThis.mp hw
      exact ⟨l, hl, Operator.passes_hasAll_text_iff.mp hpass⟩
  · rintro ⟨l, rfl, hholds⟩
    have hlink : (some l).isSome = true ∨ c.operand.isDynamic = false := Or.inl rfl
    obtain ⟨w, hw⟩ := Operand.exists_resolve hlink (.field name (v.kindOf name))
    refine ⟨name, w, hc, hw, ?_⟩
    rcases h.needsLink hneeds with hop | ⟨hop, ho⟩
    · rw [hop]
      exact ⟨l, rfl, hholds⟩
    · rw [ho] at hw
      cases hw
      rw [hop]
      exact Operator.passes_hasAll_text_iff.mpr hholds

/-- Enforced where nothing is, a description that asks for the link leaves the link alone in
    a list. -/
theorem IsDescription.enforce_null (h : c.IsDescription) (hneeds : c.NeedsLink) {key : Key}
    {a : Attribute} {w e : Value} (hw : c.operand.resolve a link = .ok w)
    (he : c.op.enforce key .null w link = .ok e) :
    ∃ l, link = some l ∧ e = .list [.text l] := by
  rcases h.needsLink hneeds with hop | ⟨hop, ho⟩
  · rw [hop] at he
    obtain ⟨l, hl, rfl⟩ := map_eq_ok_iff.mp he
    exact ⟨l, thisLink_eq_ok_iff.mp hl, rfl⟩
  · rw [ho] at hw
    obtain ⟨l, hl, rfl⟩ := Operand.resolve_linkToThis.mp hw
    rw [hop] at he
    cases he
    exact ⟨l, hl, rfl⟩

end Clause

/-- Clauses a document can be created from: descriptions of different fields. -/
structure IsTemplate (clauses : List Clause) : Prop where
  onField : ∀ c ∈ clauses, ∃ name, c.OnField name
  distinct : clauses.Pairwise fun c c' => c.key ≠ c'.key
  description : ∀ c ∈ clauses, c.IsDescription
  ordinary : ∀ c ∈ clauses, c.IsOrdinary

/-! ## Enforcing under one link and testing under another -/

/-- A list of one link holds no other. -/
theorem holdsLink_singleton_iff {l l' : String} :
    Operator.holdsLink (.list [.text l]) l' = true ↔ l = l' := by
  simp [Operator.holdsLink, Value.items?, hasItem, Value.looseEqual]

namespace Query

variable {v v' : Vault} {s : Settings} {context : Option Document} {sort : List SortField}
  {clauses : List Clause} {q : Query} {f : Frontmatter} {c : Clause}

/-- Descriptions of different fields, read from expressions, are a template if they compile. -/
theorem isTemplate_of_compile (h : compile v clauses sort context s = .ok q)
    {expressions : List String} (hread : collect Clause.ofExpression expressions = .ok clauses)
    (hfields : ∀ c ∈ clauses, c.key.isIntrinsic = false)
    (hdistinct : clauses.Pairwise fun c c' => c.key ≠ c'.key)
    (hops : ∀ c ∈ clauses, c.IsDescription) : IsTemplate clauses := by
  refine ⟨fun c hc => ?_, hdistinct, hops, fun c hc w hw => ?_⟩
  · obtain ⟨a, ha⟩ := (exists_compile_iff.mp ⟨q, h⟩).1 c hc
    have hfield := hfields c hc
    cases hkey : c.key with
    | intrinsic i =>
        rw [hkey] at hfield
        exact nomatch hfield
    | field name =>
        rw [hkey] at ha
        exact ⟨name, hkey, Vault.isReserved_eq_false_of_resolve ha⟩
  · obtain ⟨e, -, he⟩ := (mem_collect hread).mp hc
    exact Clause.hasNaN_eq_false_of_ofExpression he hw

/-- A field of new frontmatter whose clause asks for the link holds a list of the link. -/
theorem fieldValue_of_enforce (h : compile v clauses sort context s = .ok q)
    (ht : IsTemplate clauses) (henforce : q.enforce .empty = .ok f) (hc : c ∈ clauses)
    (hneeds : c.NeedsLink) {name : String} (hname : c.OnField name) :
    ∃ l, context.map v.link = some l ∧ v.fieldValue f name = .list [.text l] := by
  rw [enforce_eq_enforceAll h fun c hc => (ht.description c hc).canEnforce] at henforce
  obtain ⟨t, hmem, rfl⟩ := exists_test_of_mem h hc
  have htests : q.clauses.Pairwise fun c c' => c.key ≠ c'.key :=
    ht.distinct.perm (clauses_perm h).symm Ne.symm
  rw [Query.clauses, List.pairwise_map] at htests
  obtain ⟨w, e, hw, he, hvalue⟩ :=
    fieldValue_enforceAll (isReady_tests h ht.onField) htests henforce hmem hname
  -- no other test writes the field, so that the test finds nothing there
  have hnull : v.fieldValue .empty name = .null := Kind.coerce_null _
  rw [hnull] at he
  obtain ⟨l, hl, rfl⟩ := (ht.description t.clause hc).enforce_null hneeds hw he
  exact ⟨l, hl, hvalue.trans (Kind.coerce_list _ _)⟩

/-- New frontmatter meets a clause under another link exactly when the clause does not ask
    for the link or the link is the same. -/
theorem metBy_of_enforce_iff (h : compile v clauses sort context s = .ok q)
    (ht : IsTemplate clauses) (henforce : q.enforce .empty = .ok f) (hc : c ∈ clauses)
    (link : Option String) :
    c.MetBy v link f ↔ (c.NeedsLink → link = context.map v.link) := by
  have hdescription := ht.description c hc
  obtain ⟨name, hname⟩ := ht.onField c hc
  by_cases hneeds : c.NeedsLink
  · obtain ⟨l, hl, hvalue⟩ := fieldValue_of_enforce h ht henforce hc hneeds hname
    rw [hdescription.metBy_iff hneeds hname, hl]
    constructor
    · rintro ⟨l', rfl, hholds⟩ -
      rw [hvalue] at hholds
      -- the only item is the link that was written
      have heq : l = l' := holdsLink_singleton_iff.mp hholds
      rw [heq]
    · intro hsame
      refine ⟨l, hsame hneeds, ?_⟩
      rw [hvalue]
      exact holdsLink_singleton_iff.mpr rfl
  · have hops : ∀ c ∈ clauses, c.op.canEnforce = true :=
      fun c hc => (ht.description c hc).canEnforce
    have hcompatible : clauses.Pairwise Clause.Compatible :=
      ht.distinct.imp fun hne heq => absurd heq hne
    have hmet : c.MetBy v (context.map v.link) f :=
      metBy_of_enforce h ht.onField hops hcompatible henforce hc
        (hdescription.not_neverMet (ht.ordinary c hc))
    have hother : c.MetBy v link f := Clause.metBy_of_not_needsLink hneeds hmet
    exact ⟨fun _ hn => absurd hn hneeds, fun _ => hother⟩

/-- A template that was enforced has a context if a clause asks for its link. -/
theorem isSome_of_enforce (h : compile v clauses sort context s = .ok q)
    (ht : IsTemplate clauses) (henforce : q.enforce .empty = .ok f) :
    context.isSome = true ∨ ∀ c ∈ clauses, ¬ c.NeedsLink := by
  by_cases hneeds : ∃ c ∈ clauses, c.NeedsLink
  · obtain ⟨c, hc, hneeds⟩ := hneeds
    obtain ⟨name, hname⟩ := ht.onField c hc
    obtain ⟨l, hl, -⟩ := fieldValue_of_enforce h ht henforce hc hneeds hname
    rw [← Option.isSome_map (f := v.link), hl]
    exact Or.inl rfl
  · exact Or.inr fun c hc hn => hneeds ⟨c, hc, hn⟩

/-- The clauses of a template can be made ready again after an insertion, and accept a
    document with the frontmatter enforced before it exactly when no clause asks for a link
    that has changed. -/
theorem accepts_insert_iff {n d : Document} {sort' : List SortField}
    (h : compile v clauses sort context s = .ok q) (ht : IsTemplate clauses)
    (henforce : q.enforce .empty = .ok f) (hd : d.frontmatter = some f)
    (hinsert : v.insert n = .ok v') (hsort : ∀ field ∈ sort', ∃ a, v.resolve field.key = .ok a) :
    ∃ q', compile v' clauses sort' context s = .ok q' ∧
      (q'.accepts d = .ok true ↔
        ∀ c ∈ clauses, c.NeedsLink → context.map v'.link = context.map v.link) := by
  obtain ⟨q', h'⟩ : ∃ q', compile v' clauses sort' context s = .ok q' := by
    simp only [exists_compile_iff, Vault.resolve_insert hinsert]
    exact ⟨(exists_compile_iff.mp ⟨q, h⟩).1, hsort⟩
  refine ⟨q', h', ?_⟩
  rw [accepts_eq_true_iff h']
  refine forall₂_congr fun c hc => ?_
  obtain ⟨name, hname⟩ := ht.onField c hc
  rw [Clause.passes_iff_metBy hname hd, Clause.metBy_insert hinsert]
  exact metBy_of_enforce_iff h ht henforce hc _

end Query

/-! ## Creation -/

/-- A valid name and the text it was given as have one path. -/
theorem pathForName_of_validName {name trimmed : String} (h : validName name = .ok trimmed) :
    pathForName trimmed = pathForName name := by
  have htrimmed : trimmed = String.ofList (Text.trimChars name.toList) := by
    simp only [validName] at h
    split at h
    · exact nomatch h
    · split at h
      · exact nomatch h
      · exact (Except.ok.inj h).symm
  rw [htrimmed, pathForName, pathForName, String.toList_ofList,
    Text.trimChars_of_trimmed (Text.trimmed_trimChars _)]

section Creation

variable {v v' : Vault} {s : Settings} {now : Instant} {clauses : List Clause}
  {context : Option String} {name : String} {r : Report}

/-- A creation checks the name, looks up the context, enforces the clauses on nothing and adds
    the document. -/
theorem newDocument_eq_ok_iff :
    newDocument v s now clauses context name = .ok (v', r) ↔
      ∃ trimmed c q f, validName name = .ok trimmed ∧ v.contextDocument context = .ok c ∧
        Query.compile v clauses [] c s = .ok q ∧ q.enforce .empty = .ok f ∧
        ∃ d, d = ⟨pathForName trimmed, now, now, some f⟩ ∧ v.insert d = .ok v' ∧
          r = ⟨[v'.linked d], [], [], [⟨.success, "Created " ++ d.name⟩]⟩ := by
  rw [newDocument, bind_eq_ok_iff]
  refine exists_congr fun trimmed => ?_
  by_cases hfree : v.documents.contains (pathForName trimmed) = true
  -- the path is in use: the early check and the insertion both fail
  · rw [if_pos hfree]
    constructor
    · rintro ⟨-, h⟩
      cases h
    · rintro ⟨c, q, f, -, -, -, -, d, rfl, h, -⟩
      rw [Vault.insert, if_pos hfree] at h
      cases h
  · rw [if_neg hfree]
    simp only [bind_eq_ok_iff]
    constructor
    · rintro ⟨hname, c, hc, q, hq, f, hf, v₁, hv, h⟩
      cases h
      exact ⟨c, q, f, hname, hc, hq, hf, _, rfl, hv, rfl⟩
    · rintro ⟨c, q, f, hname, hc, hq, hf, d, rfl, hv, rfl⟩
      exact ⟨hname, c, hc, q, hq, f, hf, v', hv, rfl⟩

/-- The context document is at the path that was given. -/
theorem Vault.path_of_contextDocument {path : String} {c : Document}
    (h : v.contextDocument (some path) = .ok (some c)) : c.path = path := by
  obtain ⟨d, hd, heq⟩ := map_eq_ok_iff.mp h
  cases heq
  exact path_of_document hd

theorem Vault.contextDocument_insert {n : Document} {c : Option Document}
    (h : v.insert n = .ok v') (hc : v.contextDocument context = .ok c) :
    v'.contextDocument context = .ok c := by
  cases context with
  | none => exact hc
  | some path =>
      obtain ⟨d, hd, rfl⟩ := map_eq_ok_iff.mp hc
      exact map_eq_ok_iff.mpr ⟨d, Vault.document_insert_of_document h hd, rfl⟩

/-- **A new document is in the view it is created from, unless it takes the name of the
    context and the view asks for the context's link.** For clauses on different fields that
    describe a document, the selection with the same clauses and context succeeds. -/
theorem lists_newDocument_iff {expressions sort : List String}
    (hread : collect Clause.ofExpression expressions = .ok clauses)
    (hsort : ∃ fields, collect SortField.ofExpression sort = .ok fields ∧
      ∀ field ∈ fields, ∃ a, v.resolve field.key = .ok a)
    (hfields : ∀ c ∈ clauses, c.key.isIntrinsic = false)
    (hdistinct : clauses.Pairwise fun c c' => c.key ≠ c'.key)
    (hops : ∀ c ∈ clauses, c.IsDescription)
    (hnew : newDocument v s now clauses context name = .ok (v', r)) :
    ∃ d found, d.path = pathForName name ∧ v.insert d = .ok v' ∧ r.affected = [v'.linked d] ∧
      v'.select s expressions sort context = .ok found ∧
      (found.Lists d ↔
        ¬ ∃ c, v.contextDocument context = .ok (some c) ∧ v.TakesName d c ∧
          ∃ clause ∈ clauses, clause.NeedsLink) := by
  obtain ⟨trimmed, c, q, f, hname, hc, hq, hf, d, hd, hinsert, rfl⟩ :=
    newDocument_eq_ok_iff.mp hnew
  have hpath : d.path = pathForName name := by
    rw [hd]
    exact pathForName_of_validName hname
  have hfrontmatter : d.frontmatter = some f := by rw [hd]
  have ht : IsTemplate clauses := Query.isTemplate_of_compile hq hread hfields hdistinct hops
  obtain ⟨fields, hcollect, hkeys⟩ := hsort
  obtain ⟨q', hq', hpass⟩ := Query.accepts_insert_iff hq ht hf hfrontmatter hinsert hkeys
  have hlink := Query.isSome_of_enforce hq ht hf
  obtain ⟨found, hfound, hlists⟩ := Query.exists_report (Query.exists_accepts hq' hlink) v'
  refine ⟨d, found, hpath, hinsert, rfl, ?_, ?_⟩
  · exact Vault.select_eq_ok_iff.mpr ⟨clauses, fields, c, q', hread, hcollect,
      Vault.contextDocument_insert hinsert hc, hq', hfound⟩
  · have hmem : d ∈ v'.documentList := (Vault.mem_documentList_insert hinsert).mpr (Or.inl rfl)
    rw [hlists, hpass]
    -- both sides say that the context's link is the same, where a clause asks for it
    constructor
    · rintro ⟨-, hsame⟩ ⟨c', hc', htakes, clause, hclause, hneeds⟩
      cases hc.symm.trans hc'
      have hlink : v'.link c' = v.link c' := Option.some.inj (hsame clause hclause hneeds)
      exact (Vault.link_insert_eq_iff hinsert).mp hlink htakes
    · intro hfree
      refine ⟨hmem, fun clause hclause hneeds => ?_⟩
      cases c with
      | none => rfl
      | some c =>
          refine congrArg some ((Vault.link_insert_eq_iff hinsert).mpr fun htakes => ?_)
          exact hfree ⟨c, hc, htakes, clause, hclause, hneeds⟩

/-- A book created from the view of a reading list is on the list. -/
theorem lists_newDocument_iff_of_other_name :
    ∃ v' r d found,
      newDocument Sample.library .default Sample.moment Sample.booksOnList
        (some "lists/Reading.md") "Emma" = .ok (v', r) ∧
      r.affected = [v'.linked d] ∧
      v'.select .default ["type:eq:book", "collection:hasthis"] ["type:desc"]
        (some "lists/Reading.md") = .ok found ∧
      found.Lists d := by
  have hread : collect Clause.ofExpression ["type:eq:book", "collection:hasthis"]
      = .ok Sample.booksOnList := rfl
  have hsort : ∃ fields, collect SortField.ofExpression ["type:desc"] = .ok fields ∧
      ∀ field ∈ fields, ∃ a, Sample.library.resolve field.key = .ok a := by
    refine ⟨[⟨.field "type", true⟩], rfl, fun field hfield => ?_⟩
    rw [List.mem_singleton.mp hfield]
    exact ⟨_, Sample.library.resolve_field (by decide)⟩
  have hrun : (newDocument Sample.library .default Sample.moment Sample.booksOnList
      (some "lists/Reading.md") "Emma").toOption.isSome = true := by
    have horder : Query.inOrderOfWeight Sample.booksOnList = Sample.booksOnList :=
      List.mergeSort_of_pairwise (by decide)
    simp only [newDocument, Query.compile, horder]
    decide +kernel
  obtain ⟨⟨v', r⟩, hrun⟩ := Option.isSome_iff_exists.mp hrun
  have hnew := toOption_eq_some_iff.mp hrun
  obtain ⟨d, found, hpath, -, haffected, hfound, hlists⟩ :=
    lists_newDocument_iff hread hsort (by decide) (by decide) (by decide) hnew
  refine ⟨v', r, d, found, hnew, haffected, hfound, hlists.mpr ?_⟩
  rintro ⟨c, hc, ⟨-, -, hname, -⟩, -⟩
  rw [Document.name, Document.name, hpath, Vault.path_of_contextDocument hc] at hname
  revert hname
  decide +kernel

/-- A document of the name of the reading list, created from the view of the list, is not on
    it: from then on the list is known by its path. -/
theorem not_lists_newDocument_of_same_name :
    collect Clause.ofExpression ["collection:hasthis"] = .ok Sample.onList ∧
      ∃ v' r d found,
        newDocument Sample.library .default Sample.moment Sample.onList
          (some "lists/Reading.md") "Reading" = .ok (v', r) ∧
        r.affected = [v'.linked d] ∧
        v'.select .default ["collection:hasthis"] [] (some "lists/Reading.md") = .ok found ∧
        ¬ found.Lists d := by
  have hrun : (newDocument Sample.library .default Sample.moment Sample.onList
      (some "lists/Reading.md") "Reading" >>= fun created =>
        (created.1.select .default ["collection:hasthis"] [] (some "lists/Reading.md")).map
          fun found => found.listed.isEmpty).toOption = some true := by decide +kernel
  obtain ⟨⟨v', r⟩, hnew, hselect⟩ := bind_eq_ok_iff.mp (toOption_eq_some_iff.mp hrun)
  obtain ⟨found, hfound, hempty⟩ := map_eq_ok_iff.mp hselect
  obtain ⟨-, -, -, -, -, -, -, -, d, -, -, rfl⟩ := newDocument_eq_ok_iff.mp hnew
  refine ⟨rfl, v', _, d, found, hnew, rfl, hfound, ?_⟩
  rw [Report.Lists, List.isEmpty_iff.mp hempty]
  exact List.not_mem_nil

end Creation
end VaultQuery
