import VaultQuery.Proofs.Command.Selection
import VaultQuery.Proofs.Query.Enforcement
import VaultQuery.Proofs.Vault.Documents

/-! # Who is a member

    Membership is asked for in two ways: a document is asked for the link of a collection, or
    for all of that link. Both have one meaning, whatever the collection attribute is.

    * `Vault.linksBack`: what a key stands for is a list with a link;
    * `Clause.passes_link_iff`, `accepts_membership`: either question asks for this;
    * `addToCollection_eq_ok_iff_steps`: what an addition asks for and writes;
    * `lists_membersReport_iff`: the members that are reported;
    * `memberPaths_eq`: the whole report as one walk over the vault. -/

namespace VaultQuery

variable {v : Vault} {s : Settings} {c d : Document} {link : String} {op : Operator} {key : Key}

/-! ## The two questions -/

/-- What a key stands for is a list with the link. -/
def Vault.linksBack (v : Vault) (key : Key) (d : Document) (link : String) : Bool :=
  match v.resolve key with
  | .ok a => Operator.holdsLink (a.value d) link
  | .error _ => false

theorem Vault.linksBack_iff :
    v.linksBack key d link = true ↔
      ∃ a, v.resolve key = .ok a ∧ Operator.holdsLink (a.value d) link = true := by
  rw [Vault.linksBack]
  cases v.resolve key with
  | error e => simp
  | ok a => simp

/-- Of a document without frontmatter no attribute is a list. -/
theorem Attribute.isSome_of_holdsLink {a : Attribute}
    (h : Operator.holdsLink (a.value d) link = true) : d.frontmatter.isSome = true := by
  cases a with
  | intrinsic i => cases i <;> exact absurd h Bool.false_ne_true
  | field name kind =>
      cases hf : d.frontmatter with
      | some f => rfl
      | none =>
          have hnull : (Attribute.field name kind).value d = .null := by
            rw [Attribute.value, Document.field?_of_none hf]
            exact Kind.coerce_null kind
          rw [hnull] at h
          exact absurd h Bool.false_ne_true

/-- **To ask for the link, or for all of the link, is to ask for a list that has it.** -/
theorem Clause.passes_link_iff (hop : op.IsUnion) :
    Clause.Passes v (some link) d ⟨key, op, .linkToThis⟩ ↔ v.linksBack key d link = true := by
  have hpasses : ∀ current : Value,
      op.Passes (some link) current (.text link) ↔ Operator.holdsLink current link = true := by
    intro current
    rcases hop with rfl | rfl
    · exact Operator.passes_hasAll_text_iff
    · constructor
      · rintro ⟨l, hl, hholds⟩
        cases hl
        exact hholds
      · exact fun hholds => ⟨link, rfl, hholds⟩
  rw [Vault.linksBack_iff]
  constructor
  · rintro ⟨-, a, w, ha, hw, hholds⟩
    cases hw
    exact ⟨a, ha, (hpasses _).mp (Operator.holds_eq_true_iff.mp hholds)⟩
  · rintro ⟨a, ha, hholds⟩
    refine ⟨fun _ => Attribute.isSome_of_holdsLink hholds, a, _, ha, rfl, ?_⟩
    exact Operator.holds_eq_true_iff.mpr ((hpasses _).mpr hholds)

/-- A membership query answers whether a document has the collection's link. -/
theorem accepts_membership {q : Query} (h : membershipQuery v s op c = .ok q)
    (hop : op.IsUnion) (d : Document) :
    q.accepts d = .ok (v.linksBack (.ofName s.collectionAttribute) d (v.link c)) := by
  have htrue : q.accepts d = .ok true ↔
      v.linksBack (.ofName s.collectionAttribute) d (v.link c) = true := by
    rw [Query.accepts_eq_true_iff h, List.forall_mem_singleton]
    exact Clause.passes_link_iff hop
  obtain ⟨b, hb⟩ := Query.exists_accepts h (Or.inl rfl) d
  rw [hb, Except.ok.injEq] at htrue ⊢
  exact Bool.eq_iff_iff.mpr htrue

/-! ## Additions -/

/-- The warning about a document that is no collection. -/
def typeWarning (s : Settings) (c : Document) (isOne : Bool) : List Message :=
  if isOne then [] else [notACollection s c]

/-- No warning about a type is a success. -/
theorem typeWarning_no_success (s : Settings) (c : Document) (b : Bool) :
    (typeWarning s c b).any (·.level == .success) = false := by
  cases b <;> rfl

/-- **The steps of an addition.** What enforcing membership makes of the frontmatter is computed
    in any case, and stored where the document does not have the link. -/
theorem addToCollection_eq_ok_iff_steps {now : Instant} {path collectionPath : String} {v' : Vault}
    {r : Report} :
    addToCollection v s now path collectionPath = .ok (v', r) ↔
      ∃ d c b q f, v.document path = .ok d ∧ v.document collectionPath = .ok c ∧
        isCollection v s c = .ok b ∧ membershipQuery v s .hasThis c = .ok q ∧
        q.enforceDocument d = .ok f ∧
        if v.linksBack (.ofName s.collectionAttribute) d (v.link c) then
          v' = v ∧ r = ⟨[v.linked d], [], [], typeWarning s c b ++ [alreadyIn d c]⟩
        else
          let changed := { d with frontmatter := some f, modified := now }
          v' = v.put changed ∧ r = ⟨[(v.put changed).linked changed], [], [],
            typeWarning s c b ++ [addedTo changed c]⟩ := by
  simp only [addToCollection, bind_eq_ok_iff, collectionWarning, map_eq_ok_iff]
  constructor
  · rintro ⟨d, hd, c, hc, _, ⟨b, hb, rfl⟩, q, hq, already, halready, f, hf, hrest⟩
    refine ⟨d, c, b, q, f, hd, hc, hb, hq, hf, ?_⟩
    rw [accepts_membership hq (Or.inr rfl), Except.ok.injEq] at halready
    subst halready
    split
    · rename_i hhas
      rw [if_pos hhas] at hrest
      cases hrest
      exact ⟨rfl, rfl⟩
    · rename_i hnot
      rw [if_neg hnot, Vault.setFrontmatter, hd] at hrest
      cases hrest
      exact ⟨rfl, rfl⟩
  · rintro ⟨d, c, b, q, f, hd, hc, hb, hq, hf, hrest⟩
    refine ⟨d, hd, c, hc, _, ⟨b, hb, rfl⟩, q, hq, _, accepts_membership hq (Or.inr rfl) d, f, hf,
      ?_⟩
    split at hrest
    · rename_i hhas
      obtain ⟨rfl, rfl⟩ := hrest
      rw [if_pos hhas]
      rfl
    · rename_i hnot
      obtain ⟨rfl, rfl⟩ := hrest
      rw [if_neg hnot, Vault.setFrontmatter, hd]
      rfl

/-! ## The reports -/

/-- Accepted documents keep their order. -/
theorem Query.accepted_sublist {q : Query} {ds found : List Document}
    (h : q.accepted ds = .ok found) : found.Sublist ds := by
  induction ds generalizing found with
  | nil =>
      cases h
      exact List.Sublist.slnil
  | cons a ds ih =>
      obtain ⟨b, rest, -, hrest, rfl⟩ := accepted_cons_eq_ok_iff.mp h
      cases b with
      | true => exact (ih hrest).cons_cons a
      | false => exact (ih hrest).cons a

theorem Query.sortFields_eq_nil {q : Query} {clauses : List Clause} {context : Option Document}
    (h : compile v clauses [] context s = .ok q) : q.sortFields = [] := by
  obtain ⟨-, hfields, -⟩ := compile_eq_ok_iff.mp h
  exact (Except.ok.inj hfields).symm

/-- A query without sort fields finds documents in the order of the vault. -/
theorem Query.matching_sublist {q : Query} {found : List Document}
    (hsort : q.sortFields = []) (h : q.matching v = .ok found) :
    found.Sublist v.documentList := by
  obtain ⟨ds, hds, rfl⟩ := map_eq_ok_iff.mp h
  rw [sort, hsort]
  exact accepted_sublist hds

/-- The members reported are the documents with the collection's link. -/
theorem lists_membersReport_iff {path : String} {found : Report}
    (hc : v.document path = .ok c) (h : membersReport v s path = .ok found) :
    found.Lists d ↔
      d ∈ v.documentList ∧
        v.linksBack (.ofName s.collectionAttribute) d (v.link c) = true := by
  simp only [membersReport, bind_eq_ok_iff] at h
  obtain ⟨c', hc', warning, -, q, hq, ds, hds, hr⟩ := h
  cases hc.symm.trans hc'
  cases hr
  rw [Query.lists_linked_iff, Query.mem_matching hds, accepts_membership hq (Or.inl rfl),
    Except.ok.injEq]

/-! ## The paths of the members -/

/-- The paths of the documents found. -/
def Report.listedPaths (r : Report) : List String := r.listed.map (·.document.path)

/-- The paths of the members of the collection at a path, as they are reported. -/
def Vault.memberPaths (v : Vault) (s : Settings) (path : String) : Except Failure (List String) :=
  (membersReport v s path).map Report.listedPaths

/-- The query for members can be made wherever collections are named in a field. -/
theorem exists_membershipQuery (hname : isReserved s.collectionAttribute = false)
    (op : Operator) (c : Document) : ∃ q, membershipQuery v s op c = .ok q := by
  refine Query.exists_compile_iff.mpr ⟨?_, fun _ hf => nomatch hf⟩
  rw [List.forall_mem_singleton, Key.ofName_of_not_reserved hname]
  exact ⟨_, v.resolve_field hname⟩

/-- A query without sort fields that answers for every document finds those with the answer
    yes, in the order of the vault. -/
theorem Query.matching_eq_filter {q : Query} {p : Document → Bool} (hsort : q.sortFields = [])
    (h : ∀ d, q.accepts d = .ok (p d)) : q.matching v = .ok (v.documentList.filter p) := by
  have haccepted : ∀ ds, q.accepted ds = .ok (ds.filter p) := by
    intro ds
    induction ds with
    | nil => rfl
    | cons a ds ih =>
        refine accepted_cons_eq_ok_iff.mpr ⟨p a, ds.filter p, h a, ih, ?_⟩
        exact List.filter_cons
  refine map_eq_ok_iff.mpr ⟨_, haccepted v.documentList, ?_⟩
  rw [sort, hsort]
  rfl

/-- The paths of the documents that have a link, in the order of the vault. -/
def Vault.holders (v : Vault) (key : Key) (link : String) : List String :=
  (v.documentList.filter fun d => v.linksBack key d link).map (·.path)

theorem Vault.mem_holders_iff {path : String} :
    path ∈ v.holders key link ↔
      ∃ d, v.document path = .ok d ∧ v.linksBack key d link = true := by
  rw [holders, List.mem_map]
  constructor
  · rintro ⟨d, hd, rfl⟩
    obtain ⟨hmem, hlink⟩ := List.mem_filter.mp hd
    exact ⟨d, mem_documentList_iff.mp hmem, hlink⟩
  · rintro ⟨d, hd, hlink⟩
    exact ⟨d, List.mem_filter.mpr ⟨mem_of_document hd, hlink⟩, path_of_document hd⟩

theorem Vault.holders_increasing (v : Vault) (key : Key) (link : String) :
    (v.holders key link).Pairwise (· < ·) :=
  v.paths_increasing.sublist (List.filter_sublist.map _)

/-- **The report on members is one walk over the vault**, once it is known whether the
    document that is asked about is a collection. -/
theorem memberPaths_eq {path : String} (hname : isReserved s.collectionAttribute = false)
    (hc : v.document path = .ok c) :
    v.memberPaths s path = (isCollection v s c).map fun _ =>
      v.holders (.ofName s.collectionAttribute) (v.link c) := by
  obtain ⟨q, hq⟩ := exists_membershipQuery (v := v) hname .hasAll c
  have hmatching := Query.matching_eq_filter (v := v) (Query.sortFields_eq_nil hq)
    (accepts_membership hq (Or.inl rfl))
  have hpaths : ∀ ds : List Document,
      (ds.map v.linked).map (·.document.path) = ds.map (·.path) := by
    intro ds
    rw [List.map_map]
    rfl
  rw [Vault.memberPaths, membersReport, hc]
  simp only [collectionWarning, bind, Except.bind]
  cases isCollection v s c with
  | error e => rfl
  | ok b =>
      simp only [Except.map, hq, hmatching, pure, Except.pure, Report.listedPaths, hpaths]
      rfl

theorem exists_membersReport_iff {path : String}
    (hname : isReserved s.collectionAttribute = false) (hc : v.document path = .ok c) :
    (∃ found, membersReport v s path = .ok found) ↔ ∃ b, isCollection v s c = .ok b := by
  have hpaths := memberPaths_eq hname hc
  rw [Vault.memberPaths] at hpaths
  rw [← exists_map_eq_ok_iff (f := Report.listedPaths), hpaths, exists_map_eq_ok_iff]

end VaultQuery
