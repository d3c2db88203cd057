import VaultQuery.Proofs.Command.Creation
import VaultQuery.Proofs.Command.Members

/-! # Memberships when documents are created

    Members hold the link of their collection as a text, and the link a collection goes by is
    made anew for every question. A creation that takes the name of a collection changes its
    link, and the texts that members hold stay what they were.

    * `Vault.Creates`: one vault becomes another by the creation of a document;
    * `Vault.ListsMember`: the members of a collection are reported, and a document is among
      them;
    * `Vault.listsMember_iff`: which documents that are;
    * `Vault.listsMember_creates_iff`: a creation leaves a membership as it is, unless it takes
      the name of the collection and the document holds one of its two links and not the
      other. -/

namespace VaultQuery

namespace Vault

variable {v v' : Vault} {n c d : Document} {s : Settings} {name : String}

/-! ## Creations -/

/-- The vault `v` becomes `v'` by the creation of the document `n`. -/
inductive Creates (v : Vault) (n : Document) (v' : Vault) : Prop where
  | insert (h : v.insert n = .ok v')
  | newDocument {s : Settings} {now : Instant} {clauses : List Clause}
      {context : Option String} {name : String} {r : Report}
      (h : newDocument v s now clauses context name = .ok (v', r))
      (haffected : r.affected = [v'.linked n])
  | newInstance {s : Settings} {now : Instant} {type name : String} {r : Report}
      (h : newInstance v s now type name = .ok (v', r))
      (haffected : r.affected = [v'.linked n])

/-- A document that was created is inserted, and reported. -/
theorem insert_of_newDocument {now : Instant} {clauses : List Clause}
    {context : Option String} {r : Report}
    (h : VaultQuery.newDocument v s now clauses context name = .ok (v', r))
    (haffected : r.affected = [v'.linked n]) : v.insert n = .ok v' := by
  obtain ⟨-, -, -, -, -, -, -, -, d, -, hinsert, rfl⟩ := newDocument_eq_ok_iff.mp h
  have hsame : d = n := by
    have hlinked : v'.linked d = v'.linked n := List.head_eq_of_cons_eq haffected
    exact congrArg Linked.document hlinked
  rw [← hsame]
  exact hinsert

/-- A document of a type is a document that satisfies one clause. -/
theorem newDocument_of_newInstance {now : Instant} {type : String} {r : Report}
    (h : VaultQuery.newInstance v s now type name = .ok (v', r)) :
    VaultQuery.newDocument v s now [.literal s.typeAttribute .eq (.text (Text.trim type))] none
      name = .ok (v', r) := by
  simp only [VaultQuery.newInstance] at h
  by_cases hempty : (Text.trim type).isEmpty = true
  · rw [if_pos hempty] at h
    exact nomatch h
  · rw [if_neg hempty] at h
    exact h

/-- Every creation is an insertion. -/
theorem Creates.insert_eq (h : v.Creates n v') : v.insert n = .ok v' := by
  cases h with
  | insert h => exact h
  | newDocument h haffected => exact insert_of_newDocument h haffected
  | newInstance h haffected =>
      exact insert_of_newDocument (newDocument_of_newInstance h) haffected

/-! ## Members -/

/-- The members of `c` are reported, and `d` is among them. -/
def ListsMember (v : Vault) (s : Settings) (c d : Document) : Prop :=
  ∃ r, membersReport v s c.path = .ok r ∧ r.Lists d

/-- The field of the document is a list with the link. -/
def HasLink (v : Vault) (name : String) (d : Document) (link : String) : Prop :=
  Operator.holdsLink ((Attribute.field name (v.kindOf name)).value d) link = true

instance (v : Vault) (name : String) (d : Document) (link : String) :
    Decidable (v.HasLink name d link) :=
  inferInstanceAs (Decidable (_ = true))

theorem hasLink_iff {link : String} (hname : isReserved name = false) :
    v.HasLink name d link ↔ v.linksBack (.field name) d link = true := by
  rw [HasLink, linksBack, v.resolve_field hname]

/-- **The members of a collection**, whenever they are reported at all, are the documents with
    its present link. -/
theorem listsMember_iff (hkey : Key.ofName s.collectionAttribute = .field name)
    (hname : isReserved name = false) (hc : c ∈ v.documentList) :
    v.ListsMember s c d ↔
      (∃ b, isCollection v s c = .ok b) ∧ d ∈ v.documentList ∧
        v.HasLink name d (v.link c) := by
  obtain rfl : s.collectionAttribute = name := by
    rw [← Key.name_ofName s.collectionAttribute, hkey]
    rfl
  have hfound := mem_documentList_iff.mp hc
  rw [← exists_membersReport_iff hname hfound, hasLink_iff hname, ← hkey]
  constructor
  · rintro ⟨r, hr, hlists⟩
    exact ⟨⟨r, hr⟩, (lists_membersReport_iff hfound hr).mp hlists⟩
  · rintro ⟨⟨r, hr⟩, hd⟩
    exact ⟨r, hr, (lists_membersReport_iff hfound hr).mpr hd⟩

/-! ## Members after a creation -/

/-- Without a context, queries are made ready as before. -/
theorem compile_insert (h : v.insert n = .ok v') (clauses : List Clause)
    (sort : List SortField) (s : Settings) :
    Query.compile v' clauses sort none s = Query.compile v clauses sort none s :=
  Query.compile_congr (resolve_insert h) rfl

theorem isCollection_insert (h : v.insert n = .ok v') (s : Settings) (c : Document) :
    isCollection v' s c = isCollection v s c := by
  rw [isCollection, isCollection, collectionQuery, collectionQuery, compile_insert h]

theorem hasLink_insert (h : v.insert n = .ok v') {link : String} :
    v'.HasLink name d link ↔ v.HasLink name d link := by
  rw [HasLink, HasLink, kindOf_insert h]

/-- **A creation changes a membership exactly when it takes the name of the collection** and
    the document has one of the two links, the one by name and the one by path, without the
    other; unless there is no report on the members, before and after. -/
theorem listsMember_creates_iff (hkey : Key.ofName s.collectionAttribute = .field name)
    (hname : isReserved name = false) (hc : c ∈ v.documentList) (hd : d ∈ v.documentList)
    (hcreates : v.Creates n v') :
    (v'.ListsMember s c d ↔ v.ListsMember s c d) ↔
      ¬ ((∃ b, isCollection v s c = .ok b) ∧ v.TakesName n c ∧
        ¬ (v.HasLink name d (bracketed c.name) ↔ v.HasLink name d (bracketed c.pathStem))) := by
  have hinsert := hcreates.insert_eq
  have hc' : c ∈ v'.documentList := (mem_documentList_insert hinsert).mpr (Or.inr hc)
  have hd' : d ∈ v'.documentList := (mem_documentList_insert hinsert).mpr (Or.inr hd)
  rw [listsMember_iff hkey hname hc, listsMember_iff hkey hname hc',
    isCollection_insert hinsert, hasLink_insert hinsert]
  -- the two sides differ in the link alone
  by_cases hreport : ∃ b, isCollection v s c = .ok b
  · by_cases htakes : v.TakesName n c
    · obtain ⟨hlink, hlink'⟩ := link_of_takesName hinsert htakes
      rw [hlink, hlink']
      simp only [hreport, hd, hd', htakes, true_and, Classical.not_not]
      exact iff_comm
    · rw [(link_insert_eq_iff hinsert).mpr htakes]
      simp [hd, hd', htakes]
  · simp [hreport]

/-- The field by which documents refer to their collections. -/
theorem ofName_collectionAttribute :
    Key.ofName Settings.default.collectionAttribute = .field "collection" ∧
      isReserved "collection" = false := by
  decide

theorem mem_library : Sample.readingList ∈ Sample.library.documentList ∧
    Sample.dune ∈ Sample.library.documentList := by
  have hdocuments : Sample.library.documentList = [Sample.dune, Sample.readingList] := rfl
  simp [hdocuments]

theorem listsMember_dune :
    Sample.library.ListsMember .default Sample.readingList Sample.dune := by
  obtain ⟨hkey, hname⟩ := ofName_collectionAttribute
  obtain ⟨hc, hd⟩ := mem_library
  have hreport : (isCollection Sample.library .default Sample.readingList).toOption
      = some true := by decide +kernel
  refine (listsMember_iff hkey hname hc).mpr ⟨⟨true, toOption_eq_some_iff.mp hreport⟩, hd, ?_⟩
  decide +kernel

/-- A new book of another name leaves the book that is on the reading list there. -/
theorem listsMember_creates_iff_of_other_name :
    ∃ v' r n, VaultQuery.newInstance Sample.library .default Sample.moment "book" "Emma"
        = .ok (v', r) ∧
      Sample.library.Creates n v' ∧ v'.ListsMember .default Sample.readingList Sample.dune := by
  obtain ⟨hkey, hname⟩ := ofName_collectionAttribute
  obtain ⟨hc, hd⟩ := mem_library
  have hrun : ((VaultQuery.newInstance Sample.library .default Sample.moment "book" "Emma").map
      fun created => created.2.affected.map (·.document.name)).toOption = some ["Emma"] := by
    decide +kernel
  obtain ⟨⟨v', r⟩, hnew, hnames⟩ := map_eq_ok_iff.mp (toOption_eq_some_iff.mp hrun)
  obtain ⟨-, -, -, -, -, -, -, -, n, -, -, hr⟩ :=
    newDocument_eq_ok_iff.mp (newDocument_of_newInstance hnew)
  have haffected : r.affected = [v'.linked n] := by rw [hr]
  have hcreates : Sample.library.Creates n v' := .newInstance hnew haffected
  refine ⟨v', r, n, hnew, hcreates, ?_⟩
  refine ((listsMember_creates_iff hkey hname hc hd hcreates).mpr ?_).mpr listsMember_dune
  rintro ⟨-, ⟨-, -, hsame, -⟩, -⟩
  have hemma : n.name = "Emma" := by
    rw [haffected] at hnames
    exact List.head_eq_of_cons_eq hnames
  rw [hemma] at hsame
  revert hsame
  decide +kernel

/-- A document of the name of the reading list takes the book off the list. -/
theorem not_listsMember_of_same_name :
    Key.ofName Settings.default.collectionAttribute = .field "collection" ∧
      isReserved "collection" = false ∧
      Sample.readingList ∈ Sample.library.documentList ∧
      Sample.dune ∈ Sample.library.documentList ∧
      ∃ n v', Sample.library.insert n = .ok v' ∧
        Sample.library.ListsMember .default Sample.readingList Sample.dune ∧
        ¬ v'.ListsMember .default Sample.readingList Sample.dune := by
  obtain ⟨hkey, hname⟩ := ofName_collectionAttribute
  obtain ⟨hc, hd⟩ := mem_library
  have hinsert : Sample.library.insert Sample.namesake
      = .ok (Sample.library.put Sample.namesake) :=
    insert_eq_ok_iff.mpr ⟨by decide +kernel, rfl⟩
  refine ⟨hkey, hname, hc, hd, Sample.namesake, _, hinsert, listsMember_dune, ?_⟩
  rw [listsMember_iff hkey hname ((mem_documentList_insert hinsert).mpr (Or.inr hc))]
  rintro ⟨-, -, hlink⟩
  revert hlink
  decide +kernel

end Vault
end VaultQuery
