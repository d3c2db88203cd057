import VaultQuery.Proofs.Command.Addition
import VaultQuery.Proofs.Query.Effects

/-! # What becomes of stored items when a list is extended

    An operator that adds to a list takes the items of what is stored there as the declared kind
    sees it. That is a list if a list is stored, and also for a single value if the kind is that
    of lists; any other single value is no list and is dropped for a list of what is wanted.

    * `Kind.KeepsItems`: the kinds and stored values for which nothing is lost, and
      `IsExtension`: what becomes of the others;
    * `Query.exists_wanted`: what a query that extends a field stores in it;
    * `extension_keeps_items`: what is kept, and what is stored instead, when a query is
      enforced and when a document is added to a collection;
    * `extension_drops_text`: a text that is lost. -/

namespace VaultQuery

/-! ## One value -/

/-- Nothing that is stored is lost when a field of the kind is extended: nothing is stored, or
    a list, or the kind makes a list of it. -/
def Kind.KeepsItems (k : Kind) (stored : Value) : Prop :=
  stored = .null ∨ (∃ items, stored = .list items) ∨ k = .list

/-- Then the items to extend are those stored. -/
theorem Kind.currentItems_of_keepsItems {k : Kind} {stored : Value} (h : k.KeepsItems stored) :
    currentItems (k.coerce stored) = stored.toItems := by
  rcases h with rfl | ⟨items, rfl⟩ | rfl
  · rw [coerce_null]
    rfl
  · rw [coerce_list]
    rfl
  · cases stored <;> rfl

/-- Otherwise the kind sees no list either. -/
theorem Kind.items?_of_not_keepsItems {k : Kind} {stored : Value}
    (h : ¬ k.KeepsItems stored) : (k.coerce stored).items? = none := by
  have hitems : stored.items? = none := by
    cases stored with
    | list items => exact absurd (Or.inr (Or.inl ⟨items, rfl⟩)) h
    | _ => rfl
  have hsees := k.sees_coerce stored
  generalize k.coerce stored = seen at hsees ⊢
  cases hsees with
  | same => exact hitems
  | list => exact absurd (Or.inr (Or.inr rfl)) h
  | _ => rfl

/-- What is stored in a field of the kind before and after it is extended: all items are still
    there, or what was stored gave way to `fresh`. -/
structure IsExtension (k : Kind) (before after fresh : Value) : Prop where
  kept : k.KeepsItems before → before.toItems ⊆ after.toItems
  dropped : ¬ k.KeepsItems before → after = fresh

/-- Adding what is missing extends what is stored, if its items for the kind are added to. -/
theorem isExtension_addMissing (k : Kind) (before : Value) (wanted : List Value) :
    IsExtension k before (.list (addMissing (currentItems (k.coerce before)) wanted))
      (.list (addMissing [] wanted)) where
  kept := by
    intro hkeeps
    rw [Kind.currentItems_of_keepsItems hkeeps]
    exact subset_addMissing _ _
  dropped := by
    intro hdrops
    rw [currentItems, Kind.items?_of_not_keepsItems hdrops]
    rfl

/-! ## A query -/

namespace Query

variable {v : Vault} {s : Settings} {context : Option Document} {sort : List SortField}
  {clauses : List Clause} {q : Query} {name : String}

/-- All clauses on the field add to a list, and there is one. -/
def Extends (clauses : List Clause) (name : String) : Prop :=
  (∃ c ∈ clauses, c.key = .field name) ∧ ∀ c ∈ clauses, c.key = .field name → c.op.IsUnion

/-- **What a query that extends a field stores in it**: the items that were there, and what is
    missing of values that are the same for all frontmatter. -/
theorem exists_wanted (h : compile v clauses sort context s = .ok q)
    (hextends : Extends clauses name) :
    ∃ wanted, ∀ f f', q.enforce f = .ok f' →
      f'.get? name = some (.list (addMissing (currentItems (v.fieldValue f name)) wanted)) := by
  have hperm : ∀ c, c ∈ q.clauses ↔ c ∈ clauses := fun c => (clauses_perm h).mem_iff
  simp only [enforce_eq_map_changes h, map_eq_ok_iff]
  cases hchanges : Clause.changes v (context.map v.link) q.clauses with
  | error e => exact ⟨[], fun f f' ⟨_, hxs, _⟩ => nomatch hxs⟩
  | ok xs =>
      have hextend : ∀ w, .replace w ∉ effectsOn name xs := by
        intro w hw
        obtain ⟨c, hc, hkey, heffect⟩ := (mem_effectsOn hchanges).mp hw
        obtain ⟨a, -, hrest⟩ := bind_eq_ok_iff.mp heffect
        obtain ⟨u, -, hop⟩ := bind_eq_ok_iff.mp hrest
        have hunion := hextends.2 c ((hperm c).mp hc) hkey
        obtain ⟨ws, hws⟩ := (Operator.isUnion_iff_of_effect hop).mp hunion
        exact nomatch hws
      obtain ⟨wanted, hwanted⟩ := Effect.exists_eq_map_extend hextend
      have hne : wanted ≠ [] := by
        rintro rfl
        obtain ⟨c, hc, hkey⟩ := hextends.1
        obtain ⟨e, he⟩ := exists_mem_effectsOn hchanges ⟨c, (hperm c).mpr hc, hkey⟩
        rw [hwanted] at he
        exact nomatch he
      refine ⟨wanted.flatten, fun f f' ⟨_, hxs, hf'⟩ => ?_⟩
      cases hxs
      rw [← hf', Vault.get?_amendAll, hwanted, Effect.applyAll_extend hne]
      rfl

/-- **A query that extends a field keeps what is stored there, or drops it** for what it makes
    of a field that is not there. -/
theorem exists_isExtension (h : compile v clauses sort context s = .ok q)
    (hextends : Extends clauses name) :
    ∃ fresh, (∀ g g', g.get? name = none → q.enforce g = .ok g' →
        g'.get? name = some (.list fresh)) ∧
      ∀ f f', q.enforce f = .ok f' → ∃ items, f'.get? name = some (.list items) ∧
        IsExtension (v.kindOf name) ((f.get? name).getD .null) (.list items) (.list fresh) := by
  obtain ⟨wanted, hwanted⟩ := exists_wanted h hextends
  refine ⟨addMissing [] wanted, fun g g' hnone hg => ?_,
    fun f f' hf => ⟨_, hwanted f f' hf, isExtension_addMissing ..⟩⟩
  rw [hwanted g g' hg, Vault.fieldValue, hnone, Option.getD_none, Kind.coerce_null]
  rfl

end Query

/-! ## An addition to a collection -/

/-- What a document stores in a field; nothing if the field is not there. -/
def Document.stored (d : Document) (name : String) : Value := (d.field? name).getD .null

section

variable {v v' : Vault} {s : Settings} {now : Instant} {path collectionPath : String}
  {c d : Document} {q : Query} {f : Frontmatter} {r : Report} {name : String}

theorem Document.stored_eq (d : Document) (name : String) :
    d.stored name = ((d.frontmatter.getD .empty).get? name).getD .null := by
  rw [stored, field?_eq]

/-- A document with no list is found by no link. -/
theorem Vault.linksBack_of_not_keepsItems (hname : isReserved name = false)
    (h : ¬ (v.kindOf name).KeepsItems (d.stored name)) (link : String) :
    v.linksBack (.field name) d link = false := by
  rw [linksBack_field hname, fieldValue, ← d.stored_eq, currentItems,
    Kind.items?_of_not_keepsItems h]
  rfl

/-- A key that a query is about and that is named after a field is that field. -/
theorem isReserved_of_membershipQuery {op : Operator} (hq : membershipQuery v s op c = .ok q)
    (hkey : Key.ofName s.collectionAttribute = .field s.collectionAttribute) :
    isReserved s.collectionAttribute = false := by
  obtain ⟨a, ha⟩ := (Query.exists_compile_iff.mp ⟨q, hq⟩).1 _ (List.mem_singleton.mpr rfl)
  exact Vault.isReserved_eq_false_of_resolve (hkey ▸ ha)

/-- What enforcing membership writes in a field extends it. -/
theorem isExtension_enforceDocument (hname : isReserved s.collectionAttribute = false)
    (hq : membershipQuery v s .hasThis c = .ok q) (hf : q.enforceDocument d = .ok f) :
    IsExtension (v.kindOf s.collectionAttribute) (d.stored s.collectionAttribute)
      ((f.get? s.collectionAttribute).getD .null) (.list [.text (v.link c)]) := by
  rw [enforceDocument_membership hname hq, Except.ok.injEq] at hf
  subst hf
  rw [Dictionary.get?_insert_self, Vault.itemsWithLink, Vault.fieldValue, ← d.stored_eq]
  exact isExtension_addMissing _ _ [.text (v.link c)]

/-- A collection attribute that is no field is not written. -/
theorem get?_enforceDocument_of_ne (hkey : Key.ofName s.collectionAttribute ≠ .field name)
    (hq : membershipQuery v s .hasThis c = .ok q) (hf : q.enforceDocument d = .ok f) :
    (f.get? name).getD .null = d.stored name := by
  have hother : f.get? name = (d.frontmatter.getD .empty).get? name := by
    refine (Query.get?_of_enforce hq hf name).1 ?_
    rw [List.forall_mem_singleton]
    exact hkey
  rw [hother, d.stored_eq]

/-- **An addition to a collection keeps what is stored of other collections, or drops it** for
    the link alone. -/
theorem isExtension_of_addToCollection
    (h : addToCollection v s now path collectionPath = .ok (v', r)) :
    ∃ d c d', v.document path = .ok d ∧ v.document collectionPath = .ok c ∧
      v'.document path = .ok d' ∧
      (Key.ofName s.collectionAttribute = .field s.collectionAttribute →
        IsExtension (v.kindOf s.collectionAttribute) (d.stored s.collectionAttribute)
          (d'.stored s.collectionAttribute) (.list [.text (v.link c)])) ∧
      (Key.ofName s.collectionAttribute ≠ .field s.collectionAttribute →
        d'.stored s.collectionAttribute = d.stored s.collectionAttribute) := by
  obtain ⟨d, c, b, q, f, hd, hc, -, hq, hf, hrest⟩ := addToCollection_eq_ok_iff_steps.mp h
  split at hrest
  · rename_i hhas
    obtain ⟨rfl, -⟩ := hrest
    refine ⟨d, c, d, hd, hc, hd, fun hkey => ⟨fun _ => List.Subset.refl _, fun hdrops => ?_⟩,
      fun _ => rfl⟩
    -- a document that has the link has a list
    rw [hkey, Vault.linksBack_of_not_keepsItems (isReserved_of_membershipQuery hq hkey) hdrops]
      at hhas
    cases hhas
  · obtain ⟨rfl, -⟩ := hrest
    refine ⟨d, c, { d with frontmatter := some f, modified := now }, hd, hc,
      (v.document_put _ path).trans (if_pos (Vault.path_of_document hd)), fun hkey => ?_,
      fun hkey => get?_enforceDocument_of_ne hkey hq hf⟩
    exact isExtension_enforceDocument (isReserved_of_membershipQuery hq hkey) hq hf

end

/-! ## Both -/

/-- **Extending a list keeps what is stored, or drops it**: a list, and a single value where
    the kind is that of lists, is kept; in place of any other single value there is what a
    field that was not there would get. So with every query that extends a field, and with
    every addition to a collection; one that is named by no field writes none. -/
theorem extension_keeps_items :
    (∀ (v : Vault) (clauses : List Clause) (sort : List SortField) (context : Option Document)
        (s : Settings) (q : Query) (name : String),
      Query.compile v clauses sort context s = .ok q → Query.Extends clauses name →
      ∃ fresh, (∀ g g', g.get? name = none → q.enforce g = .ok g' →
          g'.get? name = some (.list fresh)) ∧
        ∀ f f', q.enforce f = .ok f' → ∃ items, f'.get? name = some (.list items) ∧
          IsExtension (v.kindOf name) ((f.get? name).getD .null) (.list items)
            (.list fresh)) ∧
    ∀ (v : Vault) (s : Settings) (now : Instant) (path collectionPath : String) (v' : Vault)
        (r : Report),
      addToCollection v s now path collectionPath = .ok (v', r) →
      ∃ d c d', v.document path = .ok d ∧ v.document collectionPath = .ok c ∧
        v'.document path = .ok d' ∧
        (Key.ofName s.collectionAttribute = .field s.collectionAttribute →
          IsExtension (v.kindOf s.collectionAttribute) (d.stored s.collectionAttribute)
            (d'.stored s.collectionAttribute) (.list [.text (v.link c)])) ∧
        (Key.ofName s.collectionAttribute ≠ .field s.collectionAttribute →
          d'.stored s.collectionAttribute = d.stored s.collectionAttribute) :=
  ⟨fun _ _ _ _ _ _ _ h hextends => Query.exists_isExtension h hextends,
    fun _ _ _ _ _ _ _ h => isExtension_of_addToCollection h⟩

/-- A text in a field declared for lists is kept when the field is extended, and a list of
    collections when a document is added to a further one. -/
theorem extension_keeps_items_of_dune :
    (∃ q f' items, Query.compile Sample.library Sample.onList [] (some Sample.readingList)
        .default = .ok q ∧
      q.enforce (.ofList [("collection", .text "[[Later]]")]) = .ok f' ∧
      f'.get? "collection" = some (.list items) ∧ .text "[[Later]]" ∈ items) ∧
    ∃ v' r d', addToCollection Sample.shelves .default Sample.moment "books/Dune.md"
        "Favorites.md" = .ok (v', r) ∧
      v'.document "books/Dune.md" = .ok d' ∧
      .text "[[Reading]]" ∈ (d'.stored "collection").toItems := by
  constructor
  · have hrun : ((Query.compile Sample.library Sample.onList [] (some Sample.readingList)
        .default).bind fun q =>
          (q.enforce (.ofList [("collection", .text "[[Later]]")])).map (·.size)).toOption
        = some 1 := by
      rw [Sample.onList, Query.compile_singleton]
      decide +kernel
    obtain ⟨q, h, hq⟩ := bind_eq_ok_iff.mp (toOption_eq_some_iff.mp hrun)
    obtain ⟨f', hf', -⟩ := map_eq_ok_iff.mp hq
    have hextends : Query.Extends Sample.onList "collection" := by
      refine ⟨⟨_, List.mem_singleton.mpr rfl, rfl⟩, ?_⟩
      rw [Sample.onList, List.forall_mem_singleton]
      exact fun _ => Or.inr rfl
    have hkind : Sample.library.kindOf "collection" = .list := by decide +kernel
    obtain ⟨fresh, -, hall⟩ := extension_keeps_items.1 _ _ _ _ _ _ _ h hextends
    obtain ⟨items, hitems, hextension⟩ := hall _ f' hf'
    have hkept := hextension.kept (Or.inr (Or.inr hkind))
    exact ⟨q, f', items, h, hf', hitems, hkept (List.mem_singleton.mpr rfl)⟩
  · have hrun : ((addToCollection Sample.shelves .default Sample.moment "books/Dune.md"
        "Favorites.md").map fun added => added.2.affected.length).toOption = some 1 := by
      decide +kernel
    obtain ⟨⟨v', r⟩, hadd, -⟩ := map_eq_ok_iff.mp (toOption_eq_some_iff.mp hrun)
    obtain ⟨d, c, d', hd, -, hd', hextension, -⟩ :=
      extension_keeps_items.2 _ _ _ _ _ _ _ hadd
    cases hd
    have hkept := (hextension (by decide)).kept (Or.inr (Or.inl ⟨_, rfl⟩))
    exact ⟨v', r, d', hadd, hd', hkept (List.mem_singleton.mpr rfl)⟩

/-- A text in a field without a declared kind is lost when the field is extended. -/
theorem extension_drops_text :
    ∃ q f', Query.compile .empty [⟨.field "a", .hasAll, .value (.text "new")⟩] [] none .default
        = .ok q ∧
      q.enforce (.ofList [("a", .text "old")]) = .ok f' ∧
      .text "old" ∈ (Value.text "old").toItems ∧
      ∃ items, f'.get? "a" = some (.list items) ∧ .text "old" ∉ items := by
  rw [Query.compile_singleton]
  refine ⟨_, _, rfl, rfl, List.mem_singleton.mpr rfl, [.text "new"], rfl, ?_⟩
  rw [List.mem_singleton, Value.text.injEq]
  decide

end VaultQuery
