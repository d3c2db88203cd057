import Mathlib.Data.List.Nodup
import VaultQuery.Proofs.Command.Members
import VaultQuery.Proofs.Command.Membership
import VaultQuery.Proofs.Value.Visible
import VaultQuery.Proofs.Vault.Identity

/-! # A new instance in every view of types

    A creation stores the type as the kind of the type field sees it. The list of types reads
    what is stored and takes lists apart, a selection compares what the kind sees, and
    collections are a selection of one type; they agree on the new document because a type
    that is not blank has one text under every kind.

    * `mem_distinctTexts`, `distinctTexts_increasing`: the types in use, each once, in order;
    * `Document.path_of_newDocument` and after it: where a new document is, and what it is
      called;
    * `IsInstanceOf`: a document is the new instance of a type in every view;
    * `isInstanceOf_newInstance`: so it is after a creation. -/

namespace VaultQuery

/-! ## Distinct texts -/

namespace Dictionary

variable {α : Type} {d : Dictionary α} {name n : String}

theorem mem_names_iff : n ∈ d.entries.map (·.1) ↔ (d.get? n).isSome = true := by
  rw [Option.isSome_iff_exists, List.mem_map]
  constructor
  · rintro ⟨⟨m, value⟩, he, rfl⟩
    exact ⟨value, get?_eq_some_iff.mpr he⟩
  · rintro ⟨value, hvalue⟩
    exact ⟨(n, value), get?_eq_some_iff.mp hvalue, rfl⟩

theorem mem_names_insert {value : α} :
    n ∈ (d.insert name value).entries.map (·.1) ↔ n = name ∨ n ∈ d.entries.map (·.1) := by
  rw [mem_names_iff, mem_names_iff, get?_insert]
  by_cases h : name = n
  · simp [h]
  · simp [h, Ne.symm h]

/-- After several writes the names are those that were there and those that were written. -/
theorem mem_names_insertAll {entries : List (String × α)} :
    n ∈ (d.insertAll entries).entries.map (·.1) ↔
      n ∈ d.entries.map (·.1) ∨ n ∈ entries.map (·.1) := by
  induction entries generalizing d with
  | nil => simp [insertAll]
  | cons e entries ih =>
      show n ∈ ((d.insert e.1 e.2).insertAll entries).entries.map (·.1) ↔ _
      rw [ih, mem_names_insert, List.map_cons, List.mem_cons, or_assoc, or_left_comm]

end Dictionary

variable {v v' : Vault} {s : Settings} {now : Instant} {type name t : String} {d : Document}

theorem mem_distinctTexts {texts : List String} : t ∈ distinctTexts texts ↔ t ∈ texts := by
  have hnone : t ∉ (Dictionary.empty : Dictionary Unit).entries.map (·.1) := List.not_mem_nil
  rw [distinctTexts, Dictionary.ofList, Dictionary.mem_names_insertAll, List.map_map]
  show _ ∨ t ∈ texts.map id ↔ _
  rw [List.map_id, or_iff_right hnone]

/-- Distinct texts stand in order, each once. -/
theorem distinctTexts_increasing (texts : List String) :
    (distinctTexts texts).Pairwise (· < ·) :=
  List.pairwise_map.mpr (Dictionary.increasing _)

theorem mem_typeNames_iff :
    t ∈ typeNames v s ↔ ∃ d ∈ v.documentList, t ∈ typesOfDocument s d := by
  rw [typeNames, mem_distinctTexts, List.mem_flatMap]

/-- **A new document adds its types to those in use**, and takes none away. -/
theorem mem_typeNames_insert (h : v.insert d = .ok v') :
    t ∈ typeNames v' s ↔ t ∈ typesOfDocument s d ∨ t ∈ typeNames v s := by
  simp only [mem_typeNames_iff, Vault.mem_documentList_insert h]
  constructor
  · rintro ⟨c, rfl | hc, ht⟩
    · exact Or.inl ht
    · exact Or.inr ⟨c, hc, ht⟩
  · rintro (ht | ⟨c, hc, ht⟩)
    · exact ⟨d, Or.inl rfl, ht⟩
    · exact ⟨c, Or.inr hc, ht⟩

/-! ## The types of a document -/

/-- A document whose type was written under a kind has one type. -/
theorem mem_typesOfDocument_iff {kind : Kind} {text : String}
    (hfield : d.field? s.typeAttribute = some (kind.coerce (.text type)))
    (htype : Text.Visible type) (htext : (kind.coerce (.text type)).text? = some text) :
    t ∈ typesOfDocument s d ↔ t = text := by
  obtain ⟨text', htext', hvisible, hitems⟩ := kind.exists_text_coerce htype
  cases htext.symm.trans htext'
  have hshown : (!(Text.trimChars text.toList).isEmpty) = true := by
    rw [Text.visible_iff.mp hvisible]
    rfl
  rw [typesOfDocument, hfield, Option.getD_some, hitems, List.filter_cons, if_pos hshown]
  exact List.mem_singleton

/-! ## Where a new document is -/

/-- A valid name is what is left of a text when the edges are cut; it is not empty and has no
    slash. -/
theorem spec_of_validName {trimmed : String} (h : validName name = .ok trimmed) :
    trimmed = Text.trim name ∧ trimmed.toList ≠ [] ∧ '/' ∉ trimmed.toList := by
  simp only [validName] at h
  split at h
  · cases h
  · rename_i hempty
    split at h
    · cases h
    · rename_i hslash
      cases h
      rw [String.toList_ofList]
      refine ⟨rfl, fun hnil => hempty (by rw [hnil]; rfl), fun hmem => hslash ?_⟩
      exact List.any_eq_true.mpr ⟨'/', hmem, rfl⟩

namespace Document

/-- A valid name with the extension is the path of a new document. -/
theorem path_of_newDocument {trimmed : String} (h : validName name = .ok trimmed) :
    pathForName trimmed = String.ofList (trimmed.toList ++ documentExtension) := by
  rw [(spec_of_validName h).1, pathForName, Text.trim, String.toList_ofList,
    Text.trimChars_of_trimmed (Text.trimmed_trimChars _)]

theorem pathStem_of_path (h : d.path = String.ofList (t.toList ++ documentExtension)) :
    d.pathStem = t := by
  rw [pathStem, h, stemOfPath_append, String.ofList_toList]

/-- In the root a document is called what its path was made of. -/
theorem name_of_path (h : d.path = String.ofList (t.toList ++ documentExtension))
    (hne : t.toList ≠ []) (hroot : '/' ∉ t.toList) : d.name = t := by
  rw [name, h, nameOfPath_append, lastSegment_of_not_mem hroot, if_neg hne, String.ofList_toList]

end Document

/-- **A document whose name is its path without the extension has one link in every vault.** -/
theorem Vault.link_of_name_eq_pathStem (h : d.name = d.pathStem) (w : Vault) :
    w.link d = bracketed d.name := by
  rw [link, ← h, ite_self, bracketed]

/-- No document is in a vault twice. -/
theorem Vault.documentList_nodup (v : Vault) : v.documentList.Nodup := by
  have hpaths : (v.documentList.map (·.path)).Nodup := by
    refine v.paths_increasing.imp ?_
    intro a b hlt heq
    exact String.lt_irrefl b (heq ▸ hlt)
  exact hpaths.of_map

/-- A vault gains the document that is inserted and no other. -/
theorem Vault.documentList_insert_perm (h : v.insert d = .ok v') :
    v'.documentList.Perm (d :: v.documentList) := by
  have hnew : d ∉ v.documentList := fun hd => path_ne_of_insert h hd rfl
  have hnodup : (d :: v.documentList).Nodup := List.nodup_cons.mpr ⟨hnew, v.documentList_nodup⟩
  refine (List.perm_ext_iff_of_nodup v'.documentList_nodup hnodup).mpr fun c => ?_
  rw [mem_documentList_insert h, List.mem_cons]

/-! ## The new instance -/

/-- The clause that asks for a type. -/
def typeClause (s : Settings) (type : String) : Clause :=
  .literal s.typeAttribute .eq (.text type)

/-- The vault `v` has become `v'` by the document `d`, the instance `name` of `type`, and every
    view of `v'` shows it as this. -/
structure IsInstanceOf (s : Settings) (type name : String) (v v' : Vault) (d : Document) :
    Prop where
  path : d.path = name ++ ".md"
  documents : v'.documentList.Perm (d :: v.documentList)
  called : d.name = name
  /-- The name is the name of the document in any vault. -/
  link : ∀ w : Vault, w.link d = "[[" ++ name ++ "]]"
  increasing : (typesReport v' s).values.Pairwise (· < ·)
  /-- The types in use are those from before and the text of the new one. -/
  types : ∃ text, ((v.kindOf s.typeAttribute).coerce (.text type)).text? = some text ∧
    ∀ t, t ∈ (typesReport v' s).values ↔ t ∈ (typesReport v s).values ∨ t = text
  /-- The type selects the document, whatever the order and the context. -/
  selected : ∀ (sort : List SortField) (context : Option String) (c : Option Document),
    (∀ field ∈ sort, ∃ a, v'.resolve field.key = .ok a) → v'.contextDocument context = .ok c →
    ∃ q found, v'.query s [typeClause s type] sort context = .ok q ∧ q.report v' = .ok found ∧
      found.Lists d
  /-- An instance of the collection type is a collection. -/
  collection : type = s.collectionType →
    ∃ found, collectionsReport v' s = .ok found ∧ found.Lists d

section TypeClause

variable {f : Frontmatter} {q : Query}

/-- On a field, the clause for a type is a description that asks for no link. -/
theorem onField_typeClause (hname : isReserved s.typeAttribute = false) :
    (typeClause s type).OnField s.typeAttribute :=
  ⟨Key.ofName_of_not_reserved hname, hname⟩

theorem operand_typeClause (htype : type ≠ linkLiteral) :
    (typeClause s type).operand = .value (.text type) := by
  rw [typeClause, Clause.literal, Operand.ofLiteral, if_neg htype]

theorem not_needsLink_typeClause (htype : type ≠ linkLiteral) :
    ¬ (typeClause s type).NeedsLink := by
  rintro (hop | hdynamic)
  · exact nomatch hop
  · rw [operand_typeClause htype] at hdynamic
    exact nomatch hdynamic

/-- Enforced on nothing, the clause for a type leaves the type as its kind sees it. -/
theorem field_of_enforce_typeClause (hname : isReserved s.typeAttribute = false)
    (htype : type ≠ linkLiteral) (hq : Query.compile v [typeClause s type] [] none s = .ok q)
    (hf : q.enforce .empty = .ok f) :
    f.get? s.typeAttribute = some ((v.kindOf s.typeAttribute).coerce (.text type)) := by
  have hops : ∀ c ∈ [typeClause s type], c.op.canEnforce = true :=
    List.forall_mem_singleton.mpr rfl
  obtain ⟨u, hu, hqu⟩ := map_eq_ok_iff.mp ((Query.compile_singleton ..).symm.trans hq)
  have hready : u.IsReady v ∧ u.clause = typeClause s type := by
    have hclause := (Test.spec_ofClause hu).1
    exact ⟨by rw [Test.IsReady, hclause, hu], hclause⟩
  rw [Query.enforce_eq_enforceAll hq hops, ← hqu] at hf
  obtain ⟨g, hstep, hrest⟩ := Query.enforceAll_cons_eq_ok_iff.mp hf
  cases hrest
  have hon : u.clause.OnField s.typeAttribute := hready.2 ▸ onField_typeClause hname
  obtain ⟨w, e, hw, he, rfl⟩ := (Query.enforceTest_eq_ok_iff hready.1 hon).mp hstep
  rw [hready.2, operand_typeClause htype] at hw
  rw [hready.2] at he
  cases hw
  cases he
  exact Dictionary.get?_insert_self ..

/-- A document whose frontmatter has the type passes the clause for it under every link. -/
theorem passes_typeClause {link : Option String} (hname : isReserved s.typeAttribute = false)
    (htype : type ≠ linkLiteral) (hd : d.frontmatter = some f)
    (hf : f.get? s.typeAttribute = some ((v.kindOf s.typeAttribute).coerce (.text type))) :
    (typeClause s type).Passes v link d := by
  have hon : (typeClause s type).OnField s.typeAttribute := onField_typeClause hname
  refine (Clause.passes_iff_metBy hon hd).mpr
    ⟨_, (v.kindOf s.typeAttribute).coerce (.text type), hon, ?_, ?_⟩
  · rw [operand_typeClause htype]
    rfl
  · -- what was written looks the same when it is read
    rw [Vault.fieldValue, hf, Option.getD_some, Kind.coerce_coerce]
    exact (Value.looseEqual_self_iff _).mpr (Kind.hasNaN_coerce _ rfl)

end TypeClause

/-- A query for a type lists the documents of the vault that have the type. -/
theorem exists_report_typeClause (sort : List SortField) (c : Option Document) {f : Frontmatter}
    (hname : isReserved s.typeAttribute = false) (htype : type ≠ linkLiteral)
    (hsort : ∀ field ∈ sort, ∃ a, v.resolve field.key = .ok a) (hmem : d ∈ v.documentList)
    (hd : d.frontmatter = some f)
    (hf : f.get? s.typeAttribute = some ((v.kindOf s.typeAttribute).coerce (.text type))) :
    ∃ q found, Query.compile v [typeClause s type] sort c s = .ok q ∧ q.matching v = .ok found ∧
      d ∈ found := by
  have hkeys : ∀ clause ∈ [typeClause s type], ∃ a, v.resolve clause.key = .ok a :=
    List.forall_mem_singleton.mpr ⟨_, (onField_typeClause hname).resolve⟩
  obtain ⟨q, hq⟩ := Query.exists_compile_iff.mpr ⟨hkeys, hsort⟩
  have hlink : c.isSome = true ∨ ∀ clause ∈ [typeClause s type], ¬ clause.NeedsLink :=
    Or.inr (List.forall_mem_singleton.mpr (not_needsLink_typeClause htype))
  obtain ⟨found, hfound⟩ :=
    Query.exists_matching_iff.mpr fun x (_ : x ∈ v.documentList) =>
      Query.exists_accepts hq hlink x
  refine ⟨q, found, hq, hfound, (Query.mem_matching hfound).mpr ⟨hmem, ?_⟩⟩
  rw [Query.accepts_eq_true_iff hq, List.forall_mem_singleton]
  exact passes_typeClause hname htype hd hf

/-- A document of the collection type is among the collections. -/
theorem exists_collections_of_type {f : Frontmatter} (hname : isReserved s.typeAttribute = false)
    (htype : s.collectionType ≠ linkLiteral) (hmem : d ∈ v.documentList)
    (hd : d.frontmatter = some f)
    (hf : f.get? s.typeAttribute
      = some ((v.kindOf s.typeAttribute).coerce (.text s.collectionType))) :
    ∃ found, collections v s = .ok found ∧ d ∈ found := by
  have hsort : ∀ field ∈ ([] : List SortField), ∃ a, v.resolve field.key = .ok a :=
    fun field hfield => absurd hfield List.not_mem_nil
  obtain ⟨q, found, hq, hfound, hlists⟩ :=
    exists_report_typeClause [] none hname htype hsort hmem hd hf
  have hquery : collectionQuery v s = .ok q := hq
  refine ⟨found, ?_, hlists⟩
  rw [collections, hquery]
  exact hfound

/-- A new instance is a document in the root that is called as was asked for and has its type as
    the kind of the field sees it. -/
theorem exists_document_of_newInstance {r : Report} (hname : isReserved s.typeAttribute = false)
    (htype : Text.trim type ≠ linkLiteral) (h : newInstance v s now type name = .ok (v', r)) :
    ∃ d f, r.affected = [v'.linked d] ∧ v.insert d = .ok v' ∧
      d.path = Text.trim name ++ ".md" ∧ d.name = Text.trim name ∧ d.name = d.pathStem ∧
      d.frontmatter = some f ∧
      f.get? s.typeAttribute
        = some ((v.kindOf s.typeAttribute).coerce (.text (Text.trim type))) := by
  obtain ⟨trimmed, c, q, f, hvalid, hc, hq, hf, d, hd, hinsert, rfl⟩ :=
    newDocument_eq_ok_iff.mp (Vault.newDocument_of_newInstance h)
  cases hc
  obtain ⟨htrimmed, hne, hroot⟩ := spec_of_validName hvalid
  have hpath : d.path = String.ofList (trimmed.toList ++ documentExtension) := by
    rw [hd]
    exact Document.path_of_newDocument hvalid
  have hdname : d.name = trimmed := Document.name_of_path hpath hne hroot
  have hstem : d.name = d.pathStem := hdname.trans (Document.pathStem_of_path hpath).symm
  have hfrontmatter : d.frontmatter = some f := by rw [hd]
  have hstored := field_of_enforce_typeClause hname htype hq hf
  rw [htrimmed] at hdname
  refine ⟨d, f, rfl, hinsert, ?_, hdname, hstem, hfrontmatter, hstored⟩
  rw [hpath, htrimmed, String.ofList_append, String.ofList_toList]
  rfl

theorem visible_of_newInstance {r : Report} (h : newInstance v s now type name = .ok (v', r)) :
    Text.Visible (Text.trim type) := by
  refine Text.visible_trim (Bool.eq_false_iff.mpr fun hempty => ?_)
  simp only [newInstance, hempty] at h
  cases h

/-- **A new instance is an instance in every view.** Where types are named in a field, a type
    that is not the literal for links, whatever the field is declared as and whatever else is
    in the vault. -/
theorem isInstanceOf_newInstance {r : Report} (hname : isReserved s.typeAttribute = false)
    (htype : Text.trim type ≠ linkLiteral)
    (h : newInstance v s now type name = .ok (v', r)) :
    ∃ d, r.affected = [v'.linked d] ∧
      IsInstanceOf s (Text.trim type) (Text.trim name) v v' d := by
  have hvisible := visible_of_newInstance h
  obtain ⟨d, f, haffected, hinsert, hpath, hdname, hstem, hfrontmatter, hstored⟩ :=
    exists_document_of_newInstance hname htype h
  have hmem : d ∈ v'.documentList := (Vault.mem_documentList_insert hinsert).mpr (Or.inl rfl)
  have hfield : d.field? s.typeAttribute
      = some ((v.kindOf s.typeAttribute).coerce (.text (Text.trim type))) := by
    rw [Document.field?, hfrontmatter]
    exact hstored
  rw [← Vault.kindOf_insert hinsert] at hstored
  refine ⟨d, haffected, ?_⟩
  constructor
  case path => exact hpath
  case documents => exact Vault.documentList_insert_perm hinsert
  case called => exact hdname
  case link =>
    intro w
    rw [Vault.link_of_name_eq_pathStem hstem, hdname]
    rfl
  case increasing => exact distinctTexts_increasing _
  case types =>
    obtain ⟨text, htext, -, -⟩ := (v.kindOf s.typeAttribute).exists_text_coerce hvisible
    refine ⟨text, htext, fun t => ?_⟩
    show t ∈ typeNames v' s ↔ t ∈ typeNames v s ∨ t = text
    rw [mem_typeNames_insert hinsert, mem_typesOfDocument_iff hfield hvisible htext, or_comm]
  case selected =>
    intro sort context c hsort hcontext
    obtain ⟨q, found, hq, hfound, hlists⟩ :=
      exists_report_typeClause sort c hname htype hsort hmem hfrontmatter hstored
    refine ⟨q, _, ?_, map_eq_ok_iff.mpr ⟨found, hfound, rfl⟩, ?_⟩
    · exact bind_eq_ok_iff.mpr ⟨c, hcontext, hq⟩
    · exact Query.lists_linked_iff.mpr hlists
  case collection =>
    intro hcollection
    rw [hcollection] at htype hstored
    obtain ⟨found, hcollections, hlists⟩ :=
      exists_collections_of_type hname htype hmem hfrontmatter hstored
    exact ⟨_, map_eq_ok_iff.mpr ⟨found, hcollections, rfl⟩, Query.lists_linked_iff.mpr hlists⟩

/-- Where types are declared as numbers, a type with an exponent and blanks is in use as the
    number it spells. -/
theorem isInstanceOf_newInstance_of_number :
    isReserved Settings.default.typeAttribute = false ∧ Text.trim " 1e3 " ≠ linkLiteral ∧
      ∃ v' r d, newInstance Sample.catalogue .default Sample.moment " 1e3 " "Emma" = .ok (v', r) ∧
        IsInstanceOf .default "1e3" "Emma" Sample.catalogue v' d ∧
        "1000" ∈ (typesReport v' .default).values := by
  have hname : isReserved Settings.default.typeAttribute = false := by decide
  have htype : Text.trim " 1e3 " ≠ linkLiteral := by decide
  have hrun : (newInstance Sample.catalogue .default Sample.moment " 1e3 "
      "Emma").toOption.isSome = true := by
    simp only [newInstance, newDocument, Query.compile_singleton]
    decide +kernel
  obtain ⟨⟨v', r⟩, hrun⟩ := Option.isSome_iff_exists.mp hrun
  have hnew := toOption_eq_some_iff.mp hrun
  obtain ⟨d, -, hd⟩ := isInstanceOf_newInstance hname htype hnew
  refine ⟨hname, htype, v', r, d, hnew, hd, ?_⟩
  obtain ⟨text, htext, htypes⟩ := hd.types
  have hnumber : ((Sample.catalogue.kindOf Settings.default.typeAttribute).coerce
      (.text (Text.trim " 1e3 "))).text? = some "1000" := by decide +kernel
  cases htext.symm.trans hnumber
  exact (htypes "1000").mpr (Or.inr rfl)

end VaultQuery
