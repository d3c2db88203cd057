import VaultQuery.Proofs.Snapshot.Values
import VaultQuery.Proofs.Time.Printed
import VaultQuery.Proofs.Vault.Documents
import VaultQuery.Proofs.Vault.Sample

/-! # Saving and reading a vault

    A snapshot lists the documents in the order of their paths, and reading it puts them back
    under these paths. What is read is the vault that was saved, each value as it is read by
    itself; nothing is read where lists are nested too deep.

    * `Dictionary.ofList_entries`: entries in order make up their dictionary;
    * `Document.ofWritten?_toJson`: one document;
    * `Vault.ofSnapshot_toSnapshot_reread`: the whole vault;
    * `Vault.ofSnapshot_toSnapshot_eq`: the vault with texts for dates, if its numbers read back;
    * `Vault.ofSnapshot_toSnapshot`: a vault without dates is read as it was;
    * `Vault.exists_ofWritten?_of_ofSnapshot`: where the values of a vault come from. -/

namespace VaultQuery

namespace Dictionary

variable {α β : Type} {name : String}

/-- The same names with other values. -/
def map (g : α → β) (d : Dictionary α) : Dictionary β :=
  ⟨d.entries.map fun e => (e.1, g e.2), List.pairwise_map.mpr d.increasing⟩

theorem eq_of_entries_eq {d d' : Dictionary α} (h : d.entries = d'.entries) : d = d' := by
  obtain ⟨entries, hsorted⟩ := d
  obtain ⟨entries', hsorted'⟩ := d'
  cases h
  rfl

/-- An entry past all others comes last. -/
theorem insertEntry_of_lt (value : α) {entries : List (String × α)}
    (h : ∀ e ∈ entries, e.1 < name) :
    insertEntry name value entries = entries ++ [(name, value)] := by
  induction entries with
  | nil => rfl
  | cons a rest ih =>
      have hlt : a.1 < name := h a (List.mem_cons_self ..)
      have hnot : ¬ name < a.1 := fun hgt => String.lt_irrefl _ (String.lt_trans hlt hgt)
      have hne : name ≠ a.1 := fun heq => String.lt_irrefl _ (heq ▸ hlt)
      rw [insertEntry, if_neg hnot, if_neg hne, ih fun e he => h e (List.mem_cons_of_mem a he)]
      rfl

/-- Entries in order, past all others, are written one behind the other. -/
theorem entries_insertAll {entries : List (String × α)} (d : Dictionary α)
    (h : (d.entries ++ entries).Pairwise fun a b => a.1 < b.1) :
    (d.insertAll entries).entries = d.entries ++ entries := by
  induction entries generalizing d with
  | nil => exact (List.append_nil _).symm
  | cons e entries ih =>
      have hinsert : (d.insert e.1 e.2).entries = d.entries ++ [e] :=
        insertEntry_of_lt e.2 fun x hx =>
          (List.pairwise_append.mp h).2.2 x hx e (List.mem_cons_self ..)
      show ((d.insert e.1 e.2).insertAll entries).entries = _
      rw [ih _ (by rw [hinsert, List.append_assoc]; exact h), hinsert, List.append_assoc]
      rfl

theorem ofList_entries (d : Dictionary α) : ofList d.entries = d :=
  eq_of_entries_eq (entries_insertAll empty d.increasing)

end Dictionary

namespace Document

/-- The values that a document stores. -/
def values (d : Document) : List Value :=
  match d.frontmatter with
  | some f => f.values
  | none => []

/-- The document with other values. -/
def mapValues (g : Value → Value) (d : Document) : Document :=
  { d with frontmatter := d.frontmatter.map (Dictionary.map g) }

/-- What a document is read as that was written into a snapshot. -/
def reread (d : Document) : Document := d.mapValues Value.reread

/-- A document with texts for dates. -/
def reloaded (d : Document) : Document :=
  { d with frontmatter := d.frontmatter.map (Dictionary.map Value.reloaded) }

theorem mapValues_congr {g g' : Value → Value} {d : Document} (h : ∀ x ∈ d.values, g x = g' x) :
    d.mapValues g = d.mapValues g' := by
  obtain ⟨path, created, modified, frontmatter⟩ := d
  cases frontmatter with
  | none => rfl
  | some f =>
      have hblock : f.map g = f.map g' := by
        refine Dictionary.eq_of_entries_eq (List.map_congr_left fun e he => ?_)
        rw [h e.2 (List.mem_map_of_mem he)]
      show (⟨path, created, modified, some (f.map g)⟩ : Document)
        = ⟨path, created, modified, some (f.map g')⟩
      rw [hblock]

theorem mapValues_id (d : Document) : d.mapValues id = d := by
  obtain ⟨path, created, modified, frontmatter⟩ := d
  cases frontmatter with
  | none => rfl
  | some f =>
      have hblock : f.map id = f := Dictionary.eq_of_entries_eq (List.map_id _)
      show (⟨path, created, modified, some (f.map id)⟩ : Document) = _
      rw [hblock]

end Document

/-! ## One document -/

section
variable (limit : Nat)

theorem fieldsOfWritten?_entries (entries : List (String × Value)) :
    fieldsOfWritten? limit (Json.writtenMembers (entries.map fun e => (e.1, e.2.toJson)))
      = if ∀ e ∈ entries, e.2.depth ≤ limit then
          some (entries.map fun e => (e.1, e.2.reread))
        else none := by
  induction entries with
  | nil => exact (if_pos fun _ he => nomatch he).symm
  | cons e entries ih =>
      have hfirst := Value.ofWritten?_toJson e.2 limit
      have hcons : (∀ x ∈ e :: entries, x.2.depth ≤ limit) ↔
          e.2.depth ≤ limit ∧ ∀ x ∈ entries, x.2.depth ≤ limit := List.forall_mem_cons
      show fieldsOfWritten? limit ((Json.escape e.1.toList, e.2.toJson.written)
        :: Json.writtenMembers (entries.map fun e => (e.1, e.2.toJson))) = _
      rw [fieldsOfWritten?, Json.textOf?_escape, hfirst, ih]
      by_cases hfits : e.2.depth ≤ limit
      · by_cases hall : ∀ x ∈ entries, x.2.depth ≤ limit
        · rw [if_pos hfits, if_pos hall, if_pos (hcons.mpr ⟨hfits, hall⟩)]
          rfl
        · rw [if_pos hfits, if_neg hall, if_neg fun hmore => hall (hcons.mp hmore).2]
      · rw [if_neg hfits, if_neg fun hmore => hfits (hcons.mp hmore).1]

namespace Document

/-- The frontmatter of a document in JSON; no block is `null`. -/
def frontmatterJson (d : Document) : Json :=
  match d.frontmatter with
  | some f => Frontmatter.toJson f
  | none => .null

theorem frontmatterOfWritten?_written (d : Document) :
    frontmatterOfWritten? (limit + 1) d.frontmatterJson.written
      = if ∀ x ∈ d.values, x.depth ≤ limit then some d.reread.frontmatter else none := by
  obtain ⟨path, created, modified, frontmatter⟩ := d
  cases frontmatter with
  | none => exact (if_pos fun _ hx => nomatch hx).symm
  | some f =>
      have hfields := fieldsOfWritten?_entries limit f.entries
      have hvalues : (∀ x ∈ f.values, x.depth ≤ limit) ↔ ∀ e ∈ f.entries, e.2.depth ≤ limit := by
        rw [Dictionary.values, List.forall_mem_map]
      have hofList : Dictionary.ofList (f.entries.map fun e => (e.1, e.2.reread))
          = f.map Value.reread := Dictionary.ofList_entries (f.map Value.reread)
      show (fieldsOfWritten? limit _).map (fun fields => some (Dictionary.ofList fields))
        = if ∀ x ∈ f.values, x.depth ≤ limit then _ else _
      rw [hfields]
      by_cases hall : ∀ e ∈ f.entries, e.2.depth ≤ limit
      · rw [if_pos hall, if_pos (hvalues.mpr hall), Option.map_some, hofList]
        rfl
      · rw [if_neg hall, if_neg fun hv => hall (hvalues.mp hv)]
        rfl

/-- The fields of a document in a snapshot. -/
def writtenFields (d : Document) : List (String × Json.Written) :=
  [("path", .text (Json.escape d.path.toList)),
    ("ctime", .text (Json.escape d.created.withZulu.toList)),
    ("mtime", .text (Json.escape d.modified.withZulu.toList)),
    ("frontmatter", d.frontmatterJson.written)]

theorem recordFields?_toJson (d : Document) :
    Json.recordFields? fieldNames d.toJson.written = some d.writtenFields := rfl

theorem timeOfWritten?_withZulu (t : Instant) :
    timeOfWritten? (.text (Json.escape t.withZulu.toList)) = some t := by
  rw [timeOfWritten?, Json.text?, Json.textOf?_escape, Option.bind_some,
    Instant.readLenient?_withZulu]

/-- **A document in a snapshot can be read**, unless lists in it are nested too deep. -/
theorem ofWritten?_toJson (now : Instant) (d : Document) :
    ofWritten? now (limit + 2) d.toJson.written
      = if ∀ x ∈ d.values, x.depth ≤ limit then some d.reread else none := by
  have hpath : Json.required? Json.text? "path" d.writtenFields = some d.path :=
    Json.textOf?_escape d.path
  have hcreated : Json.optional? timeOfWritten? now "ctime" d.writtenFields = some d.created :=
    timeOfWritten?_withZulu d.created
  have hmodified : Json.optional? timeOfWritten? now "mtime" d.writtenFields = some d.modified :=
    timeOfWritten?_withZulu d.modified
  have hfrontmatter : Json.optional? (frontmatterOfWritten? (limit + 1)) none "frontmatter"
      d.writtenFields = _ := frontmatterOfWritten?_written limit d
  rw [ofWritten?, if_neg (Nat.succ_ne_zero _), recordFields?_toJson]
  simp only [Option.bind_eq_bind, Option.bind_some, hpath, hcreated, hmodified,
    Nat.add_one_sub_one, hfrontmatter]
  by_cases hall : ∀ x ∈ d.values, x.depth ≤ limit
  · rw [if_pos hall, if_pos hall]
    rfl
  · rw [if_neg hall, if_neg hall]
    rfl

theorem listOfWritten?_toJson (now : Instant) (ds : List Document) :
    listOfWritten? now (limit + 2) (Json.writtenItems (ds.map toJson))
      = if ∀ d ∈ ds, ∀ x ∈ d.values, x.depth ≤ limit then some (ds.map reread) else none := by
  induction ds with
  | nil => exact (if_pos fun _ hd => nomatch hd).symm
  | cons d ds ih =>
      have hfirst := ofWritten?_toJson limit now d
      have hcons : (∀ e ∈ d :: ds, ∀ x ∈ e.values, x.depth ≤ limit) ↔
          (∀ x ∈ d.values, x.depth ≤ limit) ∧ ∀ e ∈ ds, ∀ x ∈ e.values, x.depth ≤ limit :=
        List.forall_mem_cons
      show listOfWritten? now (limit + 2)
        (d.toJson.written :: Json.writtenItems (ds.map toJson)) = _
      rw [listOfWritten?, hfirst, ih]
      by_cases hfits : ∀ x ∈ d.values, x.depth ≤ limit
      · by_cases hall : ∀ e ∈ ds, ∀ x ∈ e.values, x.depth ≤ limit
        · rw [if_pos hfits, if_pos hall, if_pos (hcons.mpr ⟨hfits, hall⟩)]
          rfl
        · rw [if_pos hfits, if_neg hall, if_neg fun hmore => hall (hcons.mp hmore).2]
      · rw [if_neg hfits, if_neg fun hmore => hfits (hcons.mp hmore).1]

end Document
end

/-! ## The whole vault -/

namespace Vault

/-- How deep lists in a snapshot may go: what is left of the limit of the reader below the
    list of documents, a document and its block. -/
def valueNestingLimit : Nat := 124

/-- The values stored in a vault. -/
def values (v : Vault) : List Value := v.documentList.flatMap Document.values

theorem mem_values {v : Vault} {d : Document} {f : Frontmatter} {name : String} {x : Value}
    (hd : d ∈ v.documentList) (hf : d.frontmatter = some f) (hx : f.get? name = some x) :
    x ∈ v.values := by
  refine List.mem_flatMap.mpr ⟨d, hd, ?_⟩
  rw [Document.values, hf]
  exact List.mem_map_of_mem (Dictionary.get?_eq_some_iff.mp hx)

/-- The vault with other values and no declared kinds. -/
def mapValues (g : Value → Value) (v : Vault) : Vault where
  documents := v.documents.map (Document.mapValues g)
  properties := .empty
  own_path := by
    intro e he
    obtain ⟨e', he', rfl⟩ := List.mem_map.mp he
    exact v.own_path e' he'

/-- What a vault is read as that was written into a snapshot. -/
def reread (v : Vault) : Vault := v.mapValues Value.reread

/-- A vault with texts for dates and no declared kinds. -/
def reloaded (v : Vault) : Vault where
  documents := v.documents.map Document.reloaded
  properties := .empty
  own_path := by
    intro e he
    obtain ⟨e', he', rfl⟩ := List.mem_map.mp he
    exact v.own_path e' he'

theorem documentList_mapValues (g : Value → Value) (v : Vault) :
    (v.mapValues g).documentList = v.documentList.map (Document.mapValues g) := by
  show (v.documents.entries.map _).map _ = (v.documents.entries.map _).map _
  rw [List.map_map, List.map_map]
  rfl

theorem documentList_reloaded (v : Vault) :
    v.reloaded.documentList = v.documentList.map Document.reloaded :=
  documentList_mapValues Value.reloaded v

/-- The documents of a vault in order make up that vault, kinds aside. -/
theorem documents_ofDocuments (v : Vault) :
    (ofDocuments v.documentList).documents = v.documents := by
  have hputs : ∀ (ds : List Document) (u : Vault), (ds.foldl put u).documents
      = u.documents.insertAll (ds.map fun d => (d.path, d)) := by
    intro ds
    induction ds with
    | nil => exact fun _ => rfl
    | cons d ds ih => exact fun u => ih (u.put d)
  rw [ofDocuments, hputs, ← entries_eq]
  exact Dictionary.ofList_entries v.documents

theorem properties_ofDocuments (ds : List Document) : (ofDocuments ds).properties = .empty := by
  have hputs : ∀ (ds : List Document) (u : Vault), (ds.foldl put u).properties = u.properties := by
    intro ds
    induction ds with
    | nil => exact fun _ => rfl
    | cons d ds ih => exact fun u => ih (u.put d)
  exact hputs ds empty

theorem eq_of_documents_eq {v v' : Vault} (hdocuments : v.documents = v'.documents)
    (hproperties : v.properties = v'.properties) : v = v' := by
  cases v
  cases v'
  cases hdocuments
  cases hproperties
  rfl

theorem mapValues_congr {g g' : Value → Value} {v : Vault} (h : ∀ x ∈ v.values, g x = g' x) :
    v.mapValues g = v.mapValues g' := by
  refine eq_of_documents_eq (Dictionary.eq_of_entries_eq ?_) rfl
  refine List.map_congr_left fun e he => ?_
  have hstored : ∀ x ∈ e.2.values, g x = g' x := fun x hx =>
    h x (List.mem_flatMap.mpr ⟨e.2, List.mem_map_of_mem he, hx⟩)
  rw [Document.mapValues_congr hstored]

/-- **What is read from a snapshot is the vault that was saved**, each value as it is read, and
    without declared kinds; it is nothing when lists are nested too deep. -/
theorem ofSnapshot_toSnapshot_reread (now : Instant) (v : Vault) :
    ofSnapshot now v.toSnapshot
      = if ∀ x ∈ v.values, x.depth ≤ valueNestingLimit then .ok v.reread
        else .error .badSnapshot := by
  have hforall : (∀ x ∈ v.values, x.depth ≤ valueNestingLimit) ↔
      ∀ d ∈ v.documentList, ∀ x ∈ d.values, x.depth ≤ valueNestingLimit := by
    rw [values, List.forall_mem_flatMap]
  have hlist := Document.listOfWritten?_toJson valueNestingLimit now v.documentList
  have hreread : ofDocuments (v.documentList.map Document.reread) = v.reread := by
    have hdocuments := documentList_mapValues Value.reread v
    refine (congrArg ofDocuments hdocuments.symm).trans ?_
    exact eq_of_documents_eq (documents_ofDocuments _) (properties_ofDocuments _)
  have hdocuments : snapshotDocuments? now (Json.array (v.documentList.map Document.toJson)).written
      = _ := hlist
  rw [ofSnapshot, toSnapshot, Json.Written.read?_pretty, Option.bind_some, hdocuments]
  by_cases hall : ∀ x ∈ v.values, x.depth ≤ valueNestingLimit
  · rw [if_pos hall, if_pos (hforall.mp hall)]
    exact congrArg Except.ok hreread
  · rw [if_neg hall, if_neg fun hfits => hall (hforall.mpr hfits)]

/-- A vault whose numbers read back is read with texts for dates and otherwise as it was. -/
theorem ofSnapshot_toSnapshot_eq {v : Vault} (now : Instant)
    (h : ∀ x ∈ v.values, ∀ d, Value.number d ∈ x.scalars → d.ReadsBack) :
    ofSnapshot now v.toSnapshot
      = if ∀ x ∈ v.values, x.depth ≤ valueNestingLimit then .ok v.reloaded
        else .error .badSnapshot := by
  have hreloaded : v.reread = v.reloaded :=
    mapValues_congr fun x hx => Value.reread_eq_reloaded x (h x hx)
  rw [ofSnapshot_toSnapshot_reread, hreloaded]

theorem documents_reloaded {v : Vault} (h : ∀ x ∈ v.values, x.Dateless) :
    v.reloaded.documentList = v.documentList := by
  have hself : ∀ d ∈ v.documentList, d.reloaded = d := by
    intro d hd
    have hvalues : ∀ x ∈ d.values, x.reloaded = id x := fun x hx =>
      Value.reloaded_eq_self x (h x (List.mem_flatMap.mpr ⟨d, hd, hx⟩))
    exact (Document.mapValues_congr hvalues).trans d.mapValues_id
  rw [documentList_reloaded, List.map_congr_left hself, List.map_id']

/-- **A snapshot loses nothing it can express**: a vault without dates, whose numbers are
    finite and whose lists are not nested too deep, is read as it was saved, if the printed
    digits of its numbers mean these numbers. -/
theorem ofSnapshot_toSnapshot {v : Vault} (now : Instant)
    (hdates : ∀ x ∈ v.values, x.Dateless)
    (hfinite : ∀ x ∈ v.values, ∀ d, Value.number d ∈ x.scalars → d.isFinite = true)
    (hdepth : ∀ x ∈ v.values, x.depth ≤ valueNestingLimit)
    (hprinter : ∀ x ∈ v.values, ∀ d, Value.number d ∈ x.scalars → d.isFinite = true →
      d.ReadsBack) :
    ∃ v', ofSnapshot now v.toSnapshot = .ok v' ∧ v'.documentList = v.documentList := by
  refine ⟨v.reloaded, ?_, documents_reloaded hdates⟩
  rw [ofSnapshot_toSnapshot_eq now fun x hx d hd => hprinter x hx d hd (hfinite x hx d hd),
    if_pos hdepth]

/-- Leap seconds, signed years, escaped texts, negative zero and the difference between no block
    and an empty one come back. -/
theorem ofSnapshot_toSnapshot_of_archive :
    ∃ v', ofSnapshot Sample.moment Sample.archive.toSnapshot = .ok v' ∧
      v'.documentList = Sample.archive.documentList ∧
      v'.documentList.map (fun d => (d.created, d.frontmatter.isSome))
        = [(Sample.leapSecond, true), (Sample.farAhead, true), (Sample.moment, false)] := by
  have hvalues : Sample.archive.values
      = [.list [.list (Sample.measures.map .number), .null], .bool true, .text "ä\\"] := rfl
  have hdepth : ∀ x ∈ Sample.archive.values, x.depth ≤ valueNestingLimit := by
    rw [hvalues]
    decide
  have hscalars : ∀ x ∈ Sample.archive.values, ∀ y ∈ x.scalars,
      y ∈ Sample.measures.map Value.number ∨ y = .null ∨ y = .bool true ∨ y = .text "ä\\" := by
    rw [hvalues]
    simp [Value.scalars, Value.scalarsOfItems, Sample.measures]
  have hdates : ∀ x ∈ Sample.archive.values, x.Dateless := by
    intro x hx t ht
    have hcases := hscalars x hx _ ht
    simp at hcases
  have hmeasures : ∀ d ∈ Sample.measures, d.isFinite = true ∧ d.ReadsBack := by decide +kernel
  have hnumbers : ∀ x ∈ Sample.archive.values, ∀ d, Value.number d ∈ x.scalars →
      d.isFinite = true ∧ d.ReadsBack := by
    intro x hx d hd
    have hcases := hscalars x hx _ hd
    simp only [List.mem_map, Value.number.injEq, exists_eq_right, reduceCtorEq, or_false]
      at hcases
    exact hmeasures d hcases
  obtain ⟨v', hread, hsame⟩ := ofSnapshot_toSnapshot Sample.moment hdates
    (fun x hx d hd => (hnumbers x hx d hd).1) hdepth
    fun x hx d hd _ => (hnumbers x hx d hd).2
  refine ⟨v', hread, hsame, ?_⟩
  rw [hsame]
  rfl

end Vault

/-! ## Where values that are read come from -/

/-- Written entries are those that were there or that were to be written. -/
theorem Dictionary.mem_insertAll {α : Type} {d : Dictionary α} {entries : List (String × α)}
    {e : String × α} (h : e ∈ (d.insertAll entries).entries) : e ∈ d.entries ∨ e ∈ entries := by
  induction entries generalizing d with
  | nil => exact Or.inl h
  | cons a entries ih =>
      rcases ih (d := d.insert a.1 a.2) h with h | h
      · rcases mem_insertEntry h with rfl | h
        · exact Or.inr (List.mem_cons_self ..)
        · exact Or.inl h
      · exact Or.inr (List.mem_cons_of_mem a h)

section
variable {limit : Nat}

theorem exists_of_fieldsOfWritten? {members : List (List Char × Json.Written)}
    {fields : List (String × Value)} (h : fieldsOfWritten? limit members = some fields) :
    ∀ e ∈ fields, ∃ w, Value.ofWritten? limit w = some e.2 := by
  induction members generalizing fields with
  | nil =>
      cases h
      exact fun e he => absurd he List.not_mem_nil
  | cons m members ih =>
      obtain ⟨raw, w⟩ := m
      rw [fieldsOfWritten?] at h
      split at h
      · rename_i name x rest hname hx hrest
        cases h
        exact List.forall_mem_cons.mpr ⟨⟨w, hx⟩, ih hrest⟩
      · cases h

theorem exists_of_frontmatterOfWritten? {w : Json.Written} {f : Frontmatter}
    (h : frontmatterOfWritten? (limit + 1) w = some (some f)) :
    ∀ x ∈ f.values, ∃ w, Value.ofWritten? limit w = some x := by
  cases w with
  | object members =>
      rw [frontmatterOfWritten?, if_neg (Nat.succ_ne_zero _)] at h
      obtain ⟨fields, hfields, hf⟩ := Option.map_eq_some_iff.mp h
      cases hf
      rw [Dictionary.values, List.forall_mem_map]
      intro e he
      rcases Dictionary.mem_insertAll he with he | he
      · exact absurd he List.not_mem_nil
      · exact exists_of_fieldsOfWritten? hfields e he
  | _ => cases h

namespace Document

theorem exists_of_ofWritten? {now : Instant} {w : Json.Written} {d : Document}
    (h : ofWritten? now (limit + 2) w = some d) :
    ∀ x ∈ d.values, ∃ w, Value.ofWritten? limit w = some x := by
  rw [ofWritten?, if_neg (Nat.succ_ne_zero _)] at h
  simp only [Option.bind_eq_bind, Option.bind_eq_some_iff] at h
  obtain ⟨fields, -, path, -, created, -, modified, -, frontmatter, hread, hd⟩ := h
  cases hd
  cases frontmatter with
  | none => exact fun x hx => absurd hx List.not_mem_nil
  | some f =>
      rw [Json.optional?] at hread
      split at hread
      · exact exists_of_frontmatterOfWritten? hread
      · cases hread

theorem exists_of_listOfWritten? {now : Instant} {ws : List Json.Written} {ds : List Document}
    (h : listOfWritten? now (limit + 2) ws = some ds) :
    ∀ d ∈ ds, ∀ x ∈ d.values, ∃ w, Value.ofWritten? limit w = some x := by
  induction ws generalizing ds with
  | nil =>
      cases h
      exact fun d hd => absurd hd List.not_mem_nil
  | cons w ws ih =>
      rw [listOfWritten?] at h
      split at h
      · rename_i d rest hd hrest
        cases h
        exact List.forall_mem_cons.mpr ⟨exists_of_ofWritten? hd, ih hrest⟩
      · cases h

end Document
end

namespace Vault

theorem mem_of_mem_ofDocuments {ds : List Document} {d : Document}
    (h : d ∈ (ofDocuments ds).documentList) : d ∈ ds := by
  have hputs : ∀ (ds : List Document) (u : Vault), d ∈ (ds.foldl put u).documentList →
      d ∈ u.documentList ∨ d ∈ ds := by
    intro ds
    induction ds with
    | nil => exact fun u hu => Or.inl hu
    | cons a ds ih =>
        intro u hu
        rcases ih (u.put a) hu with hput | hd
        · rcases mem_documentList_put hput with rfl | hd
          · exact Or.inr (List.mem_cons_self ..)
          · exact Or.inl hd
        · exact Or.inr (List.mem_cons_of_mem a hd)
  rcases hputs ds empty h with h | h
  · exact absurd h List.not_mem_nil
  · exact h

/-- **Every value of a vault that was read was read as a value**, nested no deeper than the
    limit of values. -/
theorem exists_ofWritten?_of_ofSnapshot {now : Instant} {s : String} {v : Vault}
    (h : ofSnapshot now s = .ok v) :
    ∀ x ∈ v.values, ∃ w, Value.ofWritten? valueNestingLimit w = some x := by
  rw [ofSnapshot] at h
  split at h
  · rename_i ds hds
    cases h
    obtain ⟨w, -, hw⟩ := Option.bind_eq_some_iff.mp hds
    cases w with
    | array items =>
        rw [values, List.forall_mem_flatMap]
        intro d hd
        exact Document.exists_of_listOfWritten? hw d (mem_of_mem_ofDocuments hd)
    | _ => cases hw
  · cases h

end Vault
end VaultQuery
