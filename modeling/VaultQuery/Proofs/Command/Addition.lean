import VaultQuery.Proofs.Command.Members
import VaultQuery.Proofs.Command.Sessions
import VaultQuery.Proofs.Vault.Sample

/-! # A document added to a collection

    Adding asks whether the document has the collection's link; if not, it writes the link
    behind what the collection attribute holds, as a list. A list is a list for every kind, so
    the document is found by the link from then on, and by no other link than before.

    * `addToCollection_eq_ok_iff`: the two outcomes;
    * `Vault.linksBack_enlist`: which links the document is found by afterwards;
    * `isCollection_congr`: whether a document is a collection can be asked as before, unless
      the collection type is the literal that stands for a link;
    * `isAddition_of_addToCollection`: members, other documents and repetitions. -/

namespace VaultQuery

variable {v v' : Vault} {s : Settings} {now : Instant} {path collectionPath : String}
  {c d : Document} {r : Report} {name link : String}

/-! ## The steps of an addition -/

/-- The items of the collection field with a link behind them, if it is not among them. -/
def Vault.itemsWithLink (v : Vault) (f : Frontmatter) (name link : String) : List Value :=
  addMissing (currentItems (v.fieldValue f name)) [.text link]

/-- A document with a link added to a field. -/
def Vault.enlist (v : Vault) (name link : String) (now : Instant) (d : Document) : Document :=
  let f := d.frontmatter.getD .empty
  { d with frontmatter := some (f.insert name (.list (v.itemsWithLink f name link))),
           modified := now }

/-- What enforcing membership makes of the frontmatter of a document. -/
theorem enforceDocument_membership {q : Query}
    (hname : isReserved s.collectionAttribute = false)
    (hq : membershipQuery v s .hasThis c = .ok q) (d : Document) :
    q.enforceDocument d = .ok ((d.frontmatter.getD .empty).insert s.collectionAttribute
      (.list (v.itemsWithLink (d.frontmatter.getD .empty) s.collectionAttribute
        (v.link c)))) := by
  have hkey := Key.ofName_of_not_reserved hname
  rw [membershipQuery, Query.compile_singleton, Test.ofClause, hkey, v.resolve_field hname] at hq
  cases hq
  rfl

/-- **An addition finds the link there and changes nothing, or adds it**, once both documents
    are found and the collection's type could be checked. -/
theorem addToCollection_eq_ok_iff (hname : isReserved s.collectionAttribute = false) :
    addToCollection v s now path collectionPath = .ok (v', r) ↔
      ∃ d c b, v.document path = .ok d ∧ v.document collectionPath = .ok c ∧
        isCollection v s c = .ok b ∧
        if v.linksBack (.ofName s.collectionAttribute) d (v.link c) then
          v' = v ∧ r = ⟨[v.linked d], [], [],
            typeWarning s c b ++ [⟨.info, d.name ++ " is already in " ++ c.name⟩]⟩
        else
          let changed := v.enlist s.collectionAttribute (v.link c) now d
          v' = v.put changed ∧ r = ⟨[(v.put changed).linked changed], [], [],
            typeWarning s c b ++ [⟨.success, "Added " ++ d.name ++ " to " ++ c.name⟩]⟩ := by
  rw [addToCollection_eq_ok_iff_steps]
  constructor
  · rintro ⟨d, c, b, q, f, hd, hc, hb, hq, hf, hrest⟩
    cases (enforceDocument_membership hname hq d).symm.trans hf
    exact ⟨d, c, b, hd, hc, hb, hrest⟩
  · rintro ⟨d, c, b, hd, hc, hb, hrest⟩
    obtain ⟨q, hq⟩ := exists_membershipQuery (v := v) hname .hasThis c
    exact ⟨d, c, b, q, _, hd, hc, hb, hq, enforceDocument_membership hname hq d, hrest⟩

/-! ## Links afterwards -/

theorem Operator.holdsLink_eq_hasItem (current : Value) (link : String) :
    holdsLink current link = hasItem (currentItems current) (.text link) := by
  cases current <;> rfl

/-- A list with a link added has the links it had and that one. -/
theorem hasItem_addMissing_link (items : List Value) (link l : String) :
    hasItem (addMissing items [.text link]) (.text l) = true ↔
      hasItem items (.text l) = true ∨ l = link := by
  rw [addMissing]
  by_cases hhas : hasItem items (.text link) = true
  · rw [if_pos hhas, addMissing]
    constructor
    · exact Or.inl
    · rintro (h | rfl)
      · exact h
      · exact hhas
  · rw [if_neg hhas, addMissing, hasItem, List.any_append, Bool.or_eq_true]
    have hnew : [Value.text link].any (·.looseEqual (.text l)) = true ↔ l = link := by
      rw [List.any_cons, List.any_nil, Bool.or_false, Value.looseEqual, beq_iff_eq, eq_comm]
    rw [hnew]
    rfl

namespace Vault

/-- On a field, a document has a link when the items of the field's value have it. -/
theorem linksBack_field (hname : isReserved name = false) (d : Document) (l : String) :
    v.linksBack (.field name) d l
      = hasItem (currentItems (v.fieldValue (d.frontmatter.getD .empty) name)) (.text l) := by
  have hvalue : (Attribute.field name (v.kindOf name)).value d
      = v.fieldValue (d.frontmatter.getD .empty) name := by
    rw [Attribute.value, Document.field?_eq, fieldValue]
  rw [linksBack, v.resolve_field hname]
  show Operator.holdsLink ((Attribute.field name (v.kindOf name)).value d) l = _
  rw [Operator.holdsLink_eq_hasItem, hvalue]

/-- **A document with a link added is found by that link, and by no other than before.** -/
theorem linksBack_enlist (hname : isReserved name = false) (l : String) :
    v.linksBack (.field name) (v.enlist name link now d) l = true ↔
      v.linksBack (.field name) d l = true ∨ l = link := by
  have hitems : v.fieldValue ((v.enlist name link now d).frontmatter.getD .empty) name
      = .list (v.itemsWithLink (d.frontmatter.getD .empty) name link) := by
    show v.fieldValue ((d.frontmatter.getD .empty).insert name _) name = _
    rw [fieldValue_insert_self, Kind.coerce_list]
  rw [linksBack_field hname, linksBack_field hname, hitems]
  exact hasItem_addMissing_link _ link l

/-- Documents put into a vault change the meaning of no key. -/
theorem resolve_put (v : Vault) (n : Document) (key : Key) :
    (v.put n).resolve key = v.resolve key := by
  cases key with
  | intrinsic i => rfl
  | field name => rfl

theorem linksBack_put (v : Vault) (n : Document) (key : Key) (d : Document) (l : String) :
    (v.put n).linksBack key d l = v.linksBack key d l := by
  rw [linksBack, linksBack, resolve_put]

/-- The holders of a link, after one was added to a document. -/
theorem mem_holders_put_enlist (hname : isReserved name = false)
    (hd : v.document path = .ok d) {p l : String} :
    p ∈ (v.put (v.enlist name link now d)).holders (.field name) l ↔
      p ∈ v.holders (.field name) l ∨ (l = link ∧ p = path) := by
  have hpath : d.path = path := path_of_document hd
  have henlisted : (v.enlist name link now d).path = path := hpath
  simp only [mem_holders_iff, document_put, linksBack_put, henlisted]
  by_cases hp : path = p
  · subst hp
    simp only [if_pos, hd, Except.ok.injEq, exists_eq_left', linksBack_enlist hname, and_true]
  · simp [hp, Ne.symm hp]

/-- Other links keep their holders. -/
theorem holders_put_enlist_of_ne (hname : isReserved name = false)
    (hd : v.document path = .ok d) {l : String} (hne : l ≠ link) :
    (v.put (v.enlist name link now d)).holders (.field name) l
      = v.holders (.field name) l := by
  have hpath : (v.enlist name link now d).path = d.path := rfl
  rw [holders, documentList_put (mem_of_document hd) hpath, List.filter_map, List.map_map,
    holders]
  have hkeep : ∀ x ∈ v.documentList,
      ((fun y => (v.put (v.enlist name link now d)).linksBack (.field name) y l) ∘
        fun x => if x.path = (v.enlist name link now d).path then v.enlist name link now d
          else x) x = v.linksBack (.field name) x l := by
    intro x hx
    rw [Function.comp, linksBack_put, hpath]
    split
    · rename_i hsame
      -- the document at this path is the one with the new link
      rw [eq_of_path_eq hx (mem_of_document hd) hsame, Bool.eq_iff_iff, linksBack_enlist hname]
      simp [hne]
    · rfl
  rw [List.filter_congr hkeep]
  refine List.map_congr_left fun x _ => ?_
  rw [Function.comp, hpath]
  split
  · rename_i hsame
    exact hsame.symm
  · rfl

end Vault

/-! ## The check of the collection's type -/

/-- A test that finds no link fails on all documents alike. -/
theorem Query.allHold_eq_error {ts : List Test} {t : Test} {e : Failure}
    (h : t.value none = .error e) (d : Document) :
    Query.allHold d none (t :: ts) = .error e := by
  rw [allHold, Test.holds, h]

/-- Whether a document is a collection can be asked as of another one, if the collection type
    is no link, or either both documents have frontmatter or none has. -/
theorem isCollection_congr {d d' : Document}
    (h : s.collectionType = linkLiteral → d'.frontmatter.isSome = d.frontmatter.isSome) :
    (isCollection v s d').map (fun _ => ()) = (isCollection v s d).map (fun _ => ()) := by
  rw [isCollection, isCollection]
  cases hq : collectionQuery v s with
  | error e => rfl
  | ok q =>
      by_cases htype : s.collectionType = linkLiteral
      · have hnone : d'.frontmatter.isNone = d.frontmatter.isNone := by
          have hsome := h htype
          cases hd : d.frontmatter <;> cases hd' : d'.frontmatter <;> simp_all
        rw [collectionQuery, Query.compile_singleton] at hq
        obtain ⟨t, ht, rfl⟩ := map_eq_ok_iff.mp hq
        obtain ⟨-, -, hvalue⟩ := Test.spec_ofClause ht
        have hoperand : (Clause.literal s.typeAttribute .eq (.text s.collectionType)).operand
            = .linkToThis := if_pos htype
        rw [hoperand] at hvalue
        have herror : t.value none = .error (.missingContext t.subject.key.name) := hvalue none
        simp only [Query.accepts, hnone]
        split
        · rfl
        · show (Query.allHold d' none [t]).map _ = (Query.allHold d none [t]).map _
          rw [Query.allHold_eq_error herror, Query.allHold_eq_error herror]
      · have hoperand : (Clause.literal s.typeAttribute .eq (.text s.collectionType)).operand
            = .value (.text s.collectionType) := if_neg htype
        have hneeds : ∀ clause ∈ [Clause.literal s.typeAttribute .eq (.text s.collectionType)],
            ¬ clause.NeedsLink := by
          rw [List.forall_mem_singleton]
          rintro (hop | hdyn)
          · cases hop
          · rw [hoperand] at hdyn
            cases hdyn
        obtain ⟨b, hb⟩ := Query.exists_accepts hq (Or.inr hneeds) d
        obtain ⟨b', hb'⟩ := Query.exists_accepts hq (Or.inr hneeds) d'
        simp only [hb, hb']
        rfl

theorem isCollection_put (v : Vault) (n : Document) (s : Settings) (c : Document) :
    isCollection (v.put n) s c = isCollection v s c := by
  rw [isCollection, isCollection, collectionQuery, collectionQuery,
    Query.compile_congr (v.resolve_put n) rfl]

/-- The check of the collection's type says of a document with frontmatter what it says of
    the document as it is: the type is no link, or the document has frontmatter already. -/
def Settings.TypeStays (s : Settings) (d : Document) : Prop :=
  s.collectionType = linkLiteral → d.frontmatter.isSome = true

/-- Every document is found again after an addition, with the link it had, and can be asked
    for its type as before. -/
theorem exists_document_put_enlist (hd : v.document path = .ok d) {p : String}
    (hc : v.document p = .ok c) (hstays : p = path → s.TypeStays d) :
    ∃ c', (v.put (v.enlist name link now d)).document p = .ok c' ∧
      (v.put (v.enlist name link now d)).link c' = v.link c ∧
      (isCollection (v.put (v.enlist name link now d)) s c').map (fun _ => ())
        = (isCollection v s c).map fun _ => () := by
  have hpath : (v.enlist name link now d).path = d.path := rfl
  have hd' : d.path = path := Vault.path_of_document hd
  rw [Vault.document_put, hpath, hd']
  by_cases hp : path = p
  · subst hp
    cases hd.symm.trans hc
    refine ⟨_, if_pos rfl, Vault.link_congr (Vault.map_path_put (Vault.mem_of_document hd) hpath)
      hpath, ?_⟩
    rw [isCollection_put]
    exact isCollection_congr fun htype => (hstays rfl htype).symm
  · refine ⟨c, (if_neg hp).trans hc, Vault.link_put (Vault.mem_of_document hd) hpath c, ?_⟩
    rw [isCollection_put]

/-- The members of a collection after an addition are the holders of its link then. -/
theorem memberPaths_put_enlist (hname : isReserved s.collectionAttribute = false)
    (hd : v.document path = .ok d) {p : String} (hc : v.document p = .ok c)
    (hstays : p = path → s.TypeStays d) :
    (v.put (v.enlist name link now d)).memberPaths s p = (isCollection v s c).map fun _ =>
      (v.put (v.enlist name link now d)).holders (.field s.collectionAttribute) (v.link c) := by
  obtain ⟨c', hc', hlink, htype⟩ := exists_document_put_enlist hd hc hstays
  rw [memberPaths_eq hname hc', hlink, Key.ofName_of_not_reserved hname]
  revert htype
  cases isCollection (v.put (v.enlist name link now d)) s c' with
  | error e =>
      cases isCollection v s c with
      | error e' => exact fun h => congrArg Except.error (Except.error.inj h)
      | ok b => exact fun h => nomatch h
  | ok b' =>
      cases isCollection v s c with
      | error e' => exact fun h => nomatch h
      | ok b => exact fun _ => rfl

/-! ## The whole of an addition -/

/-- A document that has the link already stays as it is, and no success is reported. -/
theorem addToCollection_of_linksBack (hname : isReserved s.collectionAttribute = false)
    (hd : v.document path = .ok d) (hc : v.document collectionPath = .ok c) {b : Bool}
    (hb : isCollection v s c = .ok b)
    (hlink : v.linksBack (.field s.collectionAttribute) d (v.link c) = true) :
    ∃ r, addToCollection v s now path collectionPath = .ok (v, r) ∧ r.isSuccess = false := by
  refine ⟨⟨[v.linked d], [], [],
    typeWarning s c b ++ [⟨.info, d.name ++ " is already in " ++ c.name⟩]⟩,
    (addToCollection_eq_ok_iff hname).mpr ⟨d, c, b, hd, hc, hb, ?_⟩, ?_⟩
  · rw [Key.ofName_of_not_reserved hname, if_pos hlink]
    exact ⟨rfl, rfl⟩
  · rw [Report.isSuccess, List.any_append, typeWarning_no_success]
    rfl

/-- An addition to a document writes one field of it. -/
theorem Vault.field?_enlist_of_ne (v : Vault) (d : Document) {n : String} (hne : n ≠ name) :
    (v.enlist name link now d).field? n = d.field? n := by
  rw [d.field?_eq]
  exact Dictionary.get?_insert_of_ne _ _ (Ne.symm hne)

/-- What an addition of the document `d` to the collection `c` with the members `before` does
    to a vault and says about it. -/
structure IsAddition (s : Settings) (v v' : Vault) (d c : Document) (before : List String)
    (r : Report) : Prop where
  properties : v'.properties = v.properties
  /-- Other documents stay as they are. -/
  others : ∀ p, p ≠ d.path → v'.document p = v.document p
  /-- Of the document one field is written. -/
  fields : ∃ d', v'.document d.path = .ok d' ∧ d'.path = d.path ∧ d'.created = d.created ∧
    ∀ n, n ≠ s.collectionAttribute → d'.field? n = d.field? n
  /-- A member stays as it is. -/
  unchanged : d.path ∈ before → v' = v
  success : r.isSuccess = true ↔ d.path ∉ before
  /-- The collection has one member more. -/
  members : (c.path = d.path → s.TypeStays d) →
    ∃ after, v'.memberPaths s c.path = .ok after ∧ after.Pairwise (· < ·) ∧
      ∀ p, p ∈ after ↔ p ∈ before ∨ p = d.path
  /-- Documents with other links keep their members. -/
  otherMembers : ∀ c' ∈ v.documentList, v.link c' ≠ v.link c →
    (c'.path = d.path → s.TypeStays d) →
      v'.memberPaths s c'.path = v.memberPaths s c'.path
  /-- To add the document again changes nothing. -/
  again : (c.path = d.path → s.TypeStays d) → ∀ now, ∃ r',
    addToCollection v' s now d.path c.path = .ok (v', r') ∧ r'.isSuccess = false

section
variable {b : Bool}

/-- A document has the collection's link when it is among the members. -/
theorem linksBack_iff_mem_holders (hd : v.document path = .ok d) {l : String} :
    v.linksBack (.field name) d l = true ↔ d.path ∈ v.holders (.field name) l := by
  rw [Vault.mem_holders_iff, Vault.path_of_document hd, hd]
  simp

/-- To find the link there is an addition that changes nothing. -/
theorem isAddition_self (hname : isReserved s.collectionAttribute = false)
    (hd : v.document d.path = .ok d) (hc : v.document c.path = .ok c)
    (hb : isCollection v s c = .ok b)
    (hmem : d.path ∈ v.holders (.field s.collectionAttribute) (v.link c))
    (hr : r.isSuccess = false) :
    IsAddition s v v d c (v.holders (.field s.collectionAttribute) (v.link c)) r where
  properties := rfl
  others := fun _ _ => rfl
  fields := ⟨d, hd, rfl, rfl, fun _ _ => rfl⟩
  unchanged := fun _ => rfl
  success := iff_of_false (by rw [hr]; exact Bool.false_ne_true) (not_not_intro hmem)
  members := by
    intro _
    have hbefore := memberPaths_eq hname hc
    rw [hb, Key.ofName_of_not_reserved hname] at hbefore
    refine ⟨_, hbefore, v.holders_increasing _ _, fun p => ?_⟩
    rw [or_iff_left_of_imp]
    rintro rfl
    exact hmem
  otherMembers := fun _ _ _ _ => rfl
  again := fun _ _ =>
    addToCollection_of_linksBack hname hd hc hb ((linksBack_iff_mem_holders hd).mpr hmem)

/-- To write a link that was not there is an addition. -/
theorem isAddition_put_enlist (hname : isReserved s.collectionAttribute = false)
    (hd : v.document d.path = .ok d) (hc : v.document c.path = .ok c)
    (hb : isCollection v s c = .ok b)
    (hmem : d.path ∉ v.holders (.field s.collectionAttribute) (v.link c))
    (hr : r.isSuccess = true) :
    IsAddition s v (v.put (v.enlist s.collectionAttribute (v.link c) now d)) d c
      (v.holders (.field s.collectionAttribute) (v.link c)) r := by
  have hput : ∀ p, (v.put (v.enlist s.collectionAttribute (v.link c) now d)).document p
      = if d.path = p then .ok (v.enlist s.collectionAttribute (v.link c) now d)
        else v.document p := v.document_put _
  exact {
    properties := rfl
    others := by
      intro p hp
      rw [hput, if_neg (Ne.symm hp)]
    fields :=
      ⟨_, (hput d.path).trans (if_pos rfl), rfl, rfl, fun _ hn => v.field?_enlist_of_ne d hn⟩
    unchanged := fun h => absurd h hmem
    success := iff_of_true hr hmem
    members := by
      intro hstays
      have hafter : (v.put (v.enlist s.collectionAttribute (v.link c) now d)).memberPaths s c.path
          = _ := memberPaths_put_enlist hname hd hc hstays
      rw [hb] at hafter
      refine ⟨_, hafter, Vault.holders_increasing _ _ _, fun p => ?_⟩
      rw [Vault.mem_holders_put_enlist hname hd]
      simp
    otherMembers := by
      intro c' hc' hne hstays
      have hfound := Vault.mem_documentList_iff.mp hc'
      rw [memberPaths_put_enlist hname hd hfound hstays,
        Vault.holders_put_enlist_of_ne hname hd hne, memberPaths_eq hname hfound,
        Key.ofName_of_not_reserved hname]
    again := by
      intro hstays now'
      obtain ⟨c', hc', hlink, htype⟩ :
          ∃ c', (v.put (v.enlist s.collectionAttribute (v.link c) now d)).document c.path
            = .ok c' ∧ _ := exists_document_put_enlist hd hc hstays
      rw [hb] at htype
      obtain ⟨b', hb', -⟩ := map_eq_ok_iff.mp htype
      refine addToCollection_of_linksBack hname ((hput d.path).trans (if_pos rfl)) hc' hb' ?_
      rw [hlink, Vault.linksBack_put, Vault.linksBack_enlist hname]
      exact Or.inr rfl }

end

/-- **An addition makes the document a member and does nothing else.** As a program that goes
    step by step it does all that it is said to do, or fails and has written nothing. It leaves
    the vault as it was also when the document is a member already, which is when it reports no
    success. Otherwise it writes one field of one document: the members of the collection
    are those before and the document, and documents with other links keep their members. Only
    where the collection type is the literal for a link is a document that had no frontmatter
    asked in vain for its type afterwards. -/
theorem isAddition_of_addToCollection (hname : isReserved s.collectionAttribute = false) :
    (Session.addToCollection s now path collectionPath).run v
        = Session.settle v (addToCollection v s now path collectionPath) ∧
      (∀ e v', (Session.addToCollection s now path collectionPath).run v = .error e v' →
        v' = v) ∧
      ∀ v' r, addToCollection v s now path collectionPath = .ok (v', r) →
        ∃ d c before, v.document path = .ok d ∧ v.document collectionPath = .ok c ∧
          v.memberPaths s collectionPath = .ok before ∧ IsAddition s v v' d c before r := by
  have hperforms := Session.Performs.addToCollection s now path collectionPath
  refine ⟨hperforms v, fun e v' hrun => hperforms.eq_of_error hrun, fun v' r hadd => ?_⟩
  obtain ⟨d, c, b, hd, hc, hb, hcase⟩ := (addToCollection_eq_ok_iff hname).mp hadd
  have hbefore := memberPaths_eq hname hc
  rw [hb, Key.ofName_of_not_reserved hname] at hbefore
  refine ⟨d, c, _, hd, hc, hbefore, ?_⟩
  obtain rfl := Vault.path_of_document hd
  obtain rfl := Vault.path_of_document hc
  rw [Key.ofName_of_not_reserved hname] at hcase
  split at hcase
  · rename_i hlink
    have hmem := (linksBack_iff_mem_holders hd).mp hlink
    obtain ⟨rfl, rfl⟩ := hcase
    refine isAddition_self hname hd hc hb hmem ?_
    rw [Report.isSuccess, List.any_append, typeWarning_no_success]
    rfl
  · rename_i hlink
    have hmem := mt (linksBack_iff_mem_holders hd).mpr hlink
    obtain ⟨rfl, rfl⟩ := hcase
    refine isAddition_put_enlist hname hd hc hb hmem ?_
    rw [Report.isSuccess, List.any_append]
    exact Bool.or_true _

/-- A book put on a second list: the list has it alone, and has it alone still when it is put
    there again. To put it on a list that is not there fails, and the shelves stay as they
    were. -/
theorem isAddition_of_addToCollection_of_dune :
    isReserved Settings.default.collectionAttribute = false ∧ (∃ v' r d c before after,
      addToCollection Sample.shelves .default Sample.moment "books/Dune.md" "Favorites.md"
        = .ok (v', r) ∧
      IsAddition .default Sample.shelves v' d c before r ∧ before = [] ∧ r.isSuccess = true ∧
      v'.memberPaths .default "Favorites.md" = .ok after ∧ after = ["books/Dune.md"]) ∧
      ∃ e, (Session.addToCollection .default Sample.moment "books/Dune.md" "Later.md").run
        Sample.shelves = .error e Sample.shelves := by
  have hname : isReserved Settings.default.collectionAttribute = false := by decide
  have hrun : ((addToCollection Sample.shelves .default Sample.moment "books/Dune.md"
      "Favorites.md").map fun added => added.2.affected.length).toOption = some 1 := by
    decide +kernel
  have hmembers : (Sample.shelves.memberPaths .default "Favorites.md").toOption
      = some [] := by
    decide +kernel
  obtain ⟨⟨v', r⟩, hadd, -⟩ := map_eq_ok_iff.mp (toOption_eq_some_iff.mp hrun)
  obtain ⟨d, c, before, hd, hc, hbefore, hadded⟩ :=
    (isAddition_of_addToCollection hname).2.2 v' r hadd
  cases hd
  cases hc
  rw [toOption_eq_some_iff.mp hmembers, Except.ok.injEq] at hbefore
  subst hbefore
  obtain ⟨after, hafter, hsorted, hmem⟩ := hadded.members fun hsame => nomatch hsame
  refine ⟨hname, ⟨v', r, _, _, [], after, hadd, hadded, rfl, ?_, hafter, ?_⟩, ?_⟩
  · exact hadded.success.mpr (List.not_mem_nil)
  · have hperm : after.Perm ["books/Dune.md"] :=
      (List.perm_ext_iff_of_nodup (hsorted.imp String.ne_of_lt) (List.pairwise_singleton _ _)).mpr
        fun p => (hmem p).trans (by simp [Sample.dune])
    exact List.perm_singleton.mp hperm
  · have hmissing : failure? (addToCollection Sample.shelves .default Sample.moment
        "books/Dune.md" "Later.md") = some (.documentNotFound "Later.md") := by decide +kernel
    have hsettled : (Session.addToCollection .default Sample.moment "books/Dune.md"
        "Later.md").run Sample.shelves = Session.settle Sample.shelves (addToCollection
          Sample.shelves .default Sample.moment "books/Dune.md" "Later.md") :=
      (isAddition_of_addToCollection hname).1
    rw [failure?_eq_some_iff.mp hmissing] at hsettled
    exact ⟨_, hsettled⟩

/-- Where the collection type is the literal for a link, a document without frontmatter is
    added to itself and has no members to report from then on. -/
theorem memberPaths_of_link_type :
    ∃ s : Settings, isReserved s.collectionAttribute = false ∧
      s.collectionType = linkLiteral ∧ ∃ v' r,
        addToCollection (.ofDocuments [Sample.bare]) s Sample.moment "A.md" "A.md"
          = .ok (v', r) ∧
        (Vault.ofDocuments [Sample.bare]).memberPaths s "A.md" = .ok [] ∧
        v'.memberPaths s "A.md" = .error (.missingContext "type") ∧
        addToCollection v' s Sample.moment "A.md" "A.md"
          = .error (.missingContext "type") := by
  let s : Settings := { Settings.default with collectionType := linkLiteral }
  have hrun : ((addToCollection (.ofDocuments [Sample.bare]) s Sample.moment "A.md" "A.md").map
      fun added => (failure? (added.1.memberPaths s "A.md"),
        failure? (addToCollection added.1 s Sample.moment "A.md" "A.md"))).toOption
        = some (some (.missingContext "type"), some (.missingContext "type")) := by
    decide +kernel
  have hmembers : ((Vault.ofDocuments [Sample.bare]).memberPaths s "A.md").toOption
      = some [] := by
    decide +kernel
  obtain ⟨⟨v', r⟩, hadd, hafter⟩ := map_eq_ok_iff.mp (toOption_eq_some_iff.mp hrun)
  obtain ⟨hpaths, hagain⟩ := Prod.mk.inj hafter
  exact ⟨s, by decide, rfl, v', r, hadd, toOption_eq_some_iff.mp hmembers,
    failure?_eq_some_iff.mp hpaths, failure?_eq_some_iff.mp hagain⟩

end VaultQuery
