import VaultQuery.Vault

/-! # Links when a document is added

    A link is not stored: it is made anew from the names of all documents whenever it is
    asked for. Adding a document changes no other document and no declared kind, but it can
    take a name that was free, and then the link of the document that had it alone changes.

    * `Vault.mem_documentList_insert`: the documents after an insertion;
    * `Vault.resolve_insert`: keys keep their meaning;
    * `Vault.TakesName`: the new document takes the name of another one;
    * `Vault.link_insert_eq_iff`: these are the only insertions that change a link, and
      `Vault.link_of_takesName` says to what. -/

namespace VaultQuery.Vault

variable {v v' : Vault} {n c d : Document}

/-! ## Documents -/

/-- The documents of a vault are those found at their paths. -/
theorem mem_documentList_iff : d ∈ v.documentList ↔ v.document d.path = .ok d := by
  have hget : v.document d.path = .ok d ↔ v.documents.get? d.path = some d := by
    rw [document]
    cases v.documents.get? d.path with
    | none => simp
    | some d' => simp
  rw [hget, Dictionary.get?_eq_some_iff, documentList, Dictionary.values, List.mem_map]
  constructor
  · rintro ⟨⟨path, d'⟩, he, rfl⟩
    have hpath : d'.path = path := v.own_path _ he
    rw [hpath]
    exact he
  · exact fun he => ⟨_, he, rfl⟩

theorem path_of_document {path : String} (h : v.document path = .ok d) : d.path = path := by
  rw [document] at h
  cases hget : v.documents.get? path with
  | none => simp [hget] at h
  | some d' =>
      rw [hget] at h
      cases h
      exact v.own_path _ (Dictionary.get?_eq_some_iff.mp hget)

theorem error_of_document {path : String} {e : Failure} (h : v.document path = .error e) :
    e = .documentNotFound path := by
  rw [document] at h
  cases hget : v.documents.get? path with
  | none =>
      rw [hget] at h
      exact (Except.error.inj h).symm
  | some d => simp [hget] at h

theorem mem_of_document {path : String} (h : v.document path = .ok d) :
    d ∈ v.documentList := by
  rw [mem_documentList_iff, path_of_document h]
  exact h

/-- A document is added exactly when its path is free, and then put there. -/
theorem insert_eq_ok_iff :
    v.insert n = .ok v' ↔ v.documents.contains n.path = false ∧ v' = v.put n := by
  rw [insert]
  cases v.documents.contains n.path with
  | true => simp
  | false => simp [eq_comm]

/-- A document that is put into a vault is at its path, and everything else where it was. -/
theorem document_put (v : Vault) (n : Document) (path : String) :
    (v.put n).document path = if n.path = path then .ok n else v.document path := by
  have hget : (v.put n).documents.get? path
      = if n.path = path then some n else v.documents.get? path :=
    Dictionary.get?_insert v.documents n.path n path
  rw [document, hget]
  by_cases hpath : n.path = path
  · rw [if_pos hpath, if_pos hpath]
  · rw [if_neg hpath, if_neg hpath, document]

/-- So it is after an insertion. -/
theorem document_insert (h : v.insert n = .ok v') (path : String) :
    v'.document path = if n.path = path then .ok n else v.document path := by
  obtain ⟨-, rfl⟩ := insert_eq_ok_iff.mp h
  exact v.document_put n path

/-- No document of the vault has the path of the new one. -/
theorem path_ne_of_insert (h : v.insert n = .ok v') (hd : d ∈ v.documentList) :
    n.path ≠ d.path := by
  intro hpath
  obtain ⟨hfree, -⟩ := insert_eq_ok_iff.mp h
  have hfound := mem_documentList_iff.mp hd
  rw [← hpath, document] at hfound
  rw [Dictionary.contains] at hfree
  cases hget : v.documents.get? n.path with
  | none => simp [hget] at hfound
  | some d' => simp [hget] at hfree

/-- What was found before is found after. -/
theorem document_insert_of_document (h : v.insert n = .ok v') {path : String}
    (hd : v.document path = .ok d) : v'.document path = .ok d := by
  have hne : n.path ≠ path := by
    rw [← path_of_document hd]
    exact path_ne_of_insert h (mem_of_document hd)
  rw [document_insert h, if_neg hne, hd]

/-- The documents after an insertion are the new one and those before. -/
theorem mem_documentList_insert (h : v.insert n = .ok v') :
    d ∈ v'.documentList ↔ d = n ∨ d ∈ v.documentList := by
  rw [mem_documentList_iff, document_insert h]
  constructor
  · intro hfound
    by_cases hpath : n.path = d.path
    · rw [if_pos hpath] at hfound
      exact Or.inl (Except.ok.inj hfound).symm
    · rw [if_neg hpath] at hfound
      exact Or.inr (mem_documentList_iff.mpr hfound)
  · rintro (rfl | hd)
    · rw [if_pos rfl]
    · rw [if_neg (path_ne_of_insert h hd)]
      exact mem_documentList_iff.mp hd

/-! ## Keys -/

theorem kindOf_insert (h : v.insert n = .ok v') (name : String) :
    v'.kindOf name = v.kindOf name := by
  obtain ⟨-, rfl⟩ := insert_eq_ok_iff.mp h
  rfl

theorem resolve_insert (h : v.insert n = .ok v') (key : Key) :
    v'.resolve key = v.resolve key := by
  cases key with
  | intrinsic i => rfl
  | field name => rw [resolve, resolve, kindOf_insert h]

/-! ## Links -/

theorem isOnlyName_iff :
    v.isOnlyName c = true ↔ ∀ d ∈ v.documentList, d.path ≠ c.path → d.name ≠ c.name := by
  simp [isOnlyName, Decidable.or_iff_not_imp_left]

/-- After an insertion a name is the only one if it was before and the new document does not
    have it. -/
theorem isOnlyName_insert (h : v.insert n = .ok v') :
    v'.isOnlyName c = true ↔
      v.isOnlyName c = true ∧ (n.path ≠ c.path → n.name ≠ c.name) := by
  rw [isOnlyName_iff, isOnlyName_iff]
  constructor
  · intro hall
    refine ⟨fun d hd => hall d ?_, hall n ?_⟩
    · exact (mem_documentList_insert h).mpr (Or.inr hd)
    · exact (mem_documentList_insert h).mpr (Or.inl rfl)
  · rintro ⟨hall, hnew⟩ d hd
    rcases (mem_documentList_insert h).mp hd with rfl | hd
    · exact hnew
    · exact hall d hd

/-- Brackets around a name or path. -/
def bracketed (s : String) : String := "[[" ++ s ++ "]]"

/-- Different texts stay different in brackets. -/
theorem bracketed_inj {s t : String} : bracketed s = bracketed t ↔ s = t := by
  constructor
  · intro h
    have hchars := congrArg String.toList h
    simp only [bracketed, String.toList_append, List.append_cancel_left_eq,
      List.append_cancel_right_eq, List.append_assoc] at hchars
    exact String.toList_inj.mp hchars
  · rintro rfl
    rfl

theorem link_of_isOnlyName (h : v.isOnlyName c = true) : v.link c = bracketed c.name := by
  rw [link, if_pos h, bracketed]

theorem link_of_not_isOnlyName (h : ¬ v.isOnlyName c = true) :
    v.link c = bracketed c.pathStem := by
  rw [link, if_neg h, bracketed]

/-- The document `n` takes the name that `c` had alone, and the path of `c` says more than
    its name. -/
def TakesName (v : Vault) (n c : Document) : Prop :=
  v.isOnlyName c = true ∧ n.path ≠ c.path ∧ n.name = c.name ∧ c.pathStem ≠ c.name

instance (v : Vault) (n c : Document) : Decidable (v.TakesName n c) :=
  inferInstanceAs (Decidable (_ ∧ _ ∧ _ ∧ _))

/-- A document whose name is taken is referred to by its path from then on. -/
theorem link_of_takesName (h : v.insert n = .ok v') (htakes : v.TakesName n c) :
    v.link c = bracketed c.name ∧ v'.link c = bracketed c.pathStem := by
  obtain ⟨honly, hpath, hname, -⟩ := htakes
  refine ⟨link_of_isOnlyName honly, link_of_not_isOnlyName ?_⟩
  intro honly'
  exact ((isOnlyName_insert h).mp honly').2 hpath hname

/-- **Links change only when a name is taken.** -/
theorem link_insert_eq_iff (h : v.insert n = .ok v') :
    v'.link c = v.link c ↔ ¬ v.TakesName n c := by
  constructor
  · intro hsame htakes
    obtain ⟨hlink, hlink'⟩ := link_of_takesName h htakes
    rw [hlink, hlink', bracketed_inj] at hsame
    exact htakes.2.2.2 hsame
  · intro hfree
    by_cases honly : v.isOnlyName c = true
    · by_cases honly' : v'.isOnlyName c = true
      · rw [link_of_isOnlyName honly, link_of_isOnlyName honly']
      -- the name is taken, so the path must spell the same
      · rw [isOnlyName_insert h, not_and, Classical.not_imp, Classical.not_not] at honly'
        obtain ⟨hpath, hname⟩ := honly' honly
        have hstem : c.pathStem = c.name := by
          by_cases hstem : c.pathStem = c.name
          · exact hstem
          · exact absurd ⟨honly, hpath, hname, hstem⟩ hfree
        rw [link, link, hstem, ite_self, ite_self]
    · have honly' : ¬ v'.isOnlyName c = true := fun h' => honly ((isOnlyName_insert h).mp h').1
      rw [link_of_not_isOnlyName honly, link_of_not_isOnlyName honly']

end VaultQuery.Vault
