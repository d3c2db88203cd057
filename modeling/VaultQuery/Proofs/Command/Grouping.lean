import VaultQuery.Proofs.Command.Members

/-! # The collection that a query infers

    A query is taken to list the members of its context when one of its clauses has the form
    of a question for the context's link on the collection attribute. Nothing is tested for
    that; the other clauses, and other values of the same clause, are not looked at.

    * `Query.linksBack_iff`: the form of such a clause;
    * `Clause.linksBack_of_passes`: what passes it has the link, on every key;
    * `Clause.not_neverMet_of_linksBack`: on a field it can always be enforced;
    * `Query.collection_eq_some_iff`: when a collection is inferred;
    * `Query.lists_members_of_collection`: what the query finds, and what it creates, are
      members of that collection. -/

namespace VaultQuery

variable {v : Vault} {s : Settings} {context : Option Document} {sort : List SortField}
  {clauses : List Clause} {q : Query} {c d : Document} {clause : Clause} {key : Key}
  {link : String}

/-! ## Clauses that ask for the link -/

/-- A clause that links back adds the link of the context to a list. -/
theorem Query.linksBack_iff :
    Query.linksBack key clause = true ↔
      clause.key = key ∧
        ((clause.op = .hasAll ∧ clause.operand = .linkToThis) ∨ clause.op = .hasThis) := by
  have hdynamic : clause.operand.isDynamic = true ↔ clause.operand = .linkToThis := by
    cases clause.operand with
    | value w => simp [Operand.isDynamic]
    | linkToThis => simp [Operand.isDynamic]
  rw [linksBack, Bool.and_eq_true, decide_eq_true_eq]
  refine and_congr_right fun _ => ?_
  cases hop : clause.op with
  | hasAll => simp [hdynamic]
  | hasThis => simp
  | _ => simp

theorem Query.isUnion_of_linksBack (h : Query.linksBack key clause = true) :
    clause.op.IsUnion := by
  obtain ⟨-, ⟨hop, -⟩ | hop⟩ := linksBack_iff.mp h
  · exact Or.inl hop
  · exact Or.inr hop

/-- **What passes a clause that links back is a list with the link**, whatever value stands
    beside an operator that does not look at it. -/
theorem Clause.linksBack_of_passes (h : Query.linksBack key clause = true)
    (hpass : clause.Passes v (some link) d) : v.linksBack key d link = true := by
  obtain ⟨hkey, hform⟩ := Query.linksBack_iff.mp h
  obtain ⟨-, a, w, ha, hw, hholds⟩ := hpass
  have hpasses : clause.op.Passes (some link) (a.value d) w := Operator.holds_eq_true_iff.mp hholds
  refine Vault.linksBack_iff.mpr ⟨a, hkey ▸ ha, ?_⟩
  rcases hform with ⟨hop, ho⟩ | hop
  · rw [ho] at hw
    cases hw
    rw [hop] at hpasses
    exact Operator.passes_hasAll_text_iff.mp hpasses
  · rw [hop] at hpasses
    obtain ⟨l, hl, hholds⟩ := hpasses
    cases hl
    exact hholds

/-- A clause that links back asks for nothing impossible: a link is no NaN. -/
theorem Clause.not_neverMet_of_linksBack {link : Option String}
    (h : Query.linksBack key clause = true) : ¬ clause.NeverMet v link := by
  rintro ⟨a, w, -, hw, hnever⟩
  obtain ⟨-, ⟨hop, ho⟩ | hop⟩ := Query.linksBack_iff.mp h
  · rw [ho] at hw
    obtain ⟨l, -, rfl⟩ := Operand.resolve_linkToThis.mp hw
    rw [hop] at hnever
    simp [Operator.NeverMet, Value.hasNaN] at hnever
  · rw [hop] at hnever
    simp [Operator.NeverMet] at hnever

/-! ## The inferred collection -/

namespace Query

/-- A collection is inferred from a clause that links back, and is the context. -/
theorem collection_eq_some_iff (hq : compile v clauses sort context s = .ok q) :
    q.collection = some link ↔
      (∃ clause ∈ clauses, linksBack (.ofName s.collectionAttribute) clause = true) ∧
        ∃ c, context = some c ∧ link = v.link c := by
  obtain ⟨-, -, -, hlink, hsettings⟩ := compile_eq_ok_iff.mp hq
  have hany : q.clauses.any (linksBack (.ofName s.collectionAttribute)) = true ↔
      ∃ clause ∈ clauses, linksBack (.ofName s.collectionAttribute) clause = true := by
    rw [List.any_eq_true]
    exact exists_congr fun clause => and_congr_left fun _ => (clauses_perm hq).mem_iff
  rw [collection, hsettings, hlink, ← hany]
  by_cases hback : q.clauses.any (linksBack (.ofName s.collectionAttribute)) = true
  · rw [if_pos hback, Option.map_eq_some_iff]
    simp only [hback, true_and]
    exact exists_congr fun c => and_congr_right fun _ => eq_comm
  · rw [if_neg hback]
    simp [hback]

/-- Enforced with only additions to the list of collections, a query writes the link of its
    context there. -/
theorem linksBack_of_enforce {name : String} {f f' : Frontmatter}
    (hq : compile v clauses sort (some c) s = .ok q) (hclause : clause ∈ clauses)
    (hback : linksBack (.field name) clause = true)
    (hunion : ∀ other ∈ clauses, other.key = .field name → other.op.IsUnion)
    (henforce : q.enforce f = .ok f') (hd : d.frontmatter = some f') :
    v.linksBack (.field name) d (v.link c) = true := by
  obtain ⟨hkey, -⟩ := linksBack_iff.mp hback
  obtain ⟨t, ht, rfl⟩ := exists_test_of_mem hq hclause
  have hready : ∀ u ∈ q.tests, u.IsReady v := fun u hu => (isReady_of_mem_tests hq hu).1
  have hcompatible : ∀ u ∈ q.tests, t.clause.Compatible u.clause := by
    intro u hu hsame
    have hother := (isReady_of_mem_tests hq hu).2
    exact ⟨isUnion_of_linksBack hback, hunion u.clause hother (hsame.symm.trans hkey)⟩
  have hfield : t.clause.OnField name := by
    rcases isIntrinsic_or_onField (hready t ht) with hintrinsic | ⟨n, hn⟩
    · rw [hkey] at hintrinsic
      exact nomatch hintrinsic
    · cases hn.1.symm.trans hkey
      exact hn
  have hmet := metBy_enforceAll_of_mem hready hcompatible ht hfield
    (Clause.not_neverMet_of_linksBack hback) (enforceAll_of_enforce hq henforce)
  exact Clause.linksBack_of_passes hback ((Clause.passes_iff_metBy hfield hd).mpr hmet)

/-- **The inferred collection is sound.** When a query infers one, it is the context's: every
    document of the vault that the query finds is reported as its member; and if nothing but
    additions is asked of the field of collections, whatever is enforced makes a document pass
    either query for members. -/
theorem lists_members_of_collection (hq : compile v clauses sort context s = .ok q)
    (hcontext : ∀ c, context = some c → c ∈ v.documentList) (hl : q.collection = some link) :
    ∃ c, context = some c ∧ link = v.link c ∧
      (∀ d ∈ v.documentList, q.acceptsAny (some d) = .ok true →
        ∀ found, membersReport v s c.path = .ok found → found.Lists d) ∧
      ∀ name, Key.ofName s.collectionAttribute = .field name →
        (∀ clause ∈ clauses, clause.key = .field name → clause.op.IsUnion) →
        ∀ f f', q.enforce f = .ok f' → ∀ d : Document, d.frontmatter = some f' →
          ∀ op : Operator, op.IsUnion →
            ∃ m, membershipQuery v s op c = .ok m ∧ m.acceptsAny (some d) = .ok true := by
  obtain ⟨⟨clause, hclause, hback⟩, c, rfl, rfl⟩ := (collection_eq_some_iff hq).mp hl
  refine ⟨c, rfl, rfl, ?_, ?_⟩
  · intro d hd haccepts found hfound
    have hc : v.document c.path = .ok c := Vault.mem_documentList_iff.mp (hcontext c rfl)
    have hpass : clause.Passes v (some (v.link c)) d :=
      (accepts_eq_true_iff hq d).mp haccepts clause hclause
    exact (lists_membersReport_iff hc hfound).mpr
      ⟨hd, Clause.linksBack_of_passes hback hpass⟩
  · intro name hname hunion f f' henforce d hd op hop
    rw [hname] at hback
    have hlinks := linksBack_of_enforce hq hclause hback hunion henforce hd
    -- the clause could be made ready, so its field can be read
    have hfield : isReserved s.collectionAttribute = false := by
      obtain ⟨a, ha⟩ := (exists_compile_iff.mp ⟨q, hq⟩).1 clause hclause
      rw [(linksBack_iff.mp hback).1] at ha
      have hsame : name = s.collectionAttribute := by
        rw [← Key.name_ofName s.collectionAttribute, hname]
        rfl
      rw [← hsame]
      exact Vault.isReserved_eq_false_of_resolve ha
    obtain ⟨m, hm⟩ := exists_membershipQuery (v := v) hfield op c
    refine ⟨m, hm, ?_⟩
    show m.accepts d = .ok true
    rw [accepts_membership hm hop, hname, hlinks]

/-- Books on the list that is the context: the list is inferred, the book that is found is its
    member, and a book that is created becomes one. -/
theorem lists_members_of_collection_of_books :
    ∃ q found f' m,
      compile Sample.library Sample.booksOnList [] (some Sample.readingList) .default = .ok q ∧
      Sample.readingList ∈ Sample.library.documentList ∧
      q.collection = some "[[Reading]]" ∧
      membersReport Sample.library .default "lists/Reading.md" = .ok found ∧
      found.Lists Sample.dune ∧ q.enforce .empty = .ok f' ∧
      membershipQuery Sample.library .default .hasAll Sample.readingList = .ok m ∧
      m.acceptsAny (some ⟨"books/Emma.md", Sample.moment, Sample.moment, some f'⟩)
        = .ok true := by
  have hdocuments : Sample.library.documentList = [Sample.dune, Sample.readingList] := rfl
  have hcontext : ∀ c, some Sample.readingList = some c → c ∈ Sample.library.documentList := by
    rintro c ⟨⟩
    simp [hdocuments]
  have horder : inOrderOfWeight Sample.booksOnList = Sample.booksOnList :=
    List.mergeSort_of_pairwise (by decide)
  have hrun : (compile Sample.library Sample.booksOnList [] (some Sample.readingList) .default
      >>= fun q => (q.acceptsAny (some Sample.dune)).map fun b =>
        (b, q.collection, (q.enforce .empty).toOption.isSome)).toOption
        = some (true, some "[[Reading]]", true) := by
    rw [compile, horder]
    decide +kernel
  obtain ⟨q, hq, hrun⟩ := bind_eq_ok_iff.mp (toOption_eq_some_iff.mp hrun)
  obtain ⟨b, haccepts, hrun⟩ := map_eq_ok_iff.mp hrun
  simp only [Prod.mk.injEq] at hrun
  obtain ⟨rfl, hl, henforces⟩ := hrun
  obtain ⟨f', hf'⟩ := Option.isSome_iff_exists.mp henforces
  have henforce : q.enforce .empty = .ok f' := toOption_eq_some_iff.mp hf'
  have hmembers : (membersReport Sample.library .default
      "lists/Reading.md").toOption.isSome = true := by decide +kernel
  obtain ⟨found, hfound⟩ := Option.isSome_iff_exists.mp hmembers
  obtain ⟨c, hc, -, hlists, hcreated⟩ := lists_members_of_collection hq hcontext hl
  cases hc
  have hunion : ∀ clause ∈ Sample.booksOnList,
      clause.key = .field "collection" → clause.op.IsUnion := by
    simp [Sample.booksOnList, Operator.IsUnion]
  obtain ⟨m, hm, hpass⟩ := hcreated "collection" rfl hunion .empty f' henforce
    ⟨"books/Emma.md", Sample.moment, Sample.moment, some f'⟩ rfl .hasAll (Or.inl rfl)
  refine ⟨q, found, f', m, hq, hcontext _ rfl, hl, toOption_eq_some_iff.mp hfound, ?_,
    henforce, hm, hpass⟩
  exact hlists Sample.dune (by simp [hdocuments]) haccepts found
    (toOption_eq_some_iff.mp hfound)

end Query
end VaultQuery
