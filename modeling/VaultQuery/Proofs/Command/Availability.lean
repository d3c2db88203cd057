import VaultQuery.Proofs.Command.Members
import VaultQuery.Proofs.Vault.Sample

/-! # Members and available collections are complements

    The members of a collection are found by asking every document for all of one link, the
    collections open to a document by asking the document for the link of every collection.

    * `notContaining_eq_filter`: the walk over the collections;
    * `lists_available_iff`: the report on open collections against those on members. -/

namespace VaultQuery

variable {v : Vault} {s : Settings} {c d : Document}

/-- The walk over the collections keeps those whose link the document does not have, itself
    left out. -/
theorem notContaining_eq_filter {cs free : List Document}
    (h : notContaining v s d cs = .ok free) :
    free = cs.filter fun c =>
      c.path != d.path && !v.linksBack (.ofName s.collectionAttribute) d (v.link c) := by
  induction cs generalizing free with
  | nil =>
      cases h
      rfl
  | cons a cs ih =>
      rw [notContaining] at h
      by_cases hself : a.path = d.path
      · rw [if_pos hself] at h
        rw [ih h, List.filter_cons_of_neg (by simp [hself])]
      · rw [if_neg hself, isMember] at h
        cases hq : membershipQuery v s .hasThis a with
        | error e =>
            rw [hq] at h
            exact nomatch h
        | ok q =>
            rw [hq] at h
            simp only [accepts_membership hq (Or.inr rfl)] at h
            cases hlink : v.linksBack (.ofName s.collectionAttribute) d (v.link a) with
            | true =>
                rw [hlink] at h
                rw [ih h, List.filter_cons_of_neg (by simp [hlink])]
            | false =>
                rw [hlink] at h
                obtain ⟨rest, hrest, rfl⟩ := map_eq_ok_iff.mp h
                rw [List.filter_cons_of_pos (by simp [hlink, hself]), ih hrest]

/-- The collections stand in the order of the vault. -/
theorem collections_sublist {cs : List Document} (h : collections v s = .ok cs) :
    cs.Sublist v.documentList := by
  rw [collections] at h
  cases hq : collectionQuery v s with
  | error e =>
      rw [hq] at h
      exact nomatch h
  | ok q =>
      rw [hq] at h
      exact Query.matching_sublist (Query.sortFields_eq_nil hq) h

/-- **Collections open to a document are those it is not a member of.** A report on them is
    part of the report on all collections, in the order of paths and without the document
    itself; and it has another collection exactly when a report on that collection's members
    does not have the document. -/
theorem lists_available_iff {path : String} {free : Report}
    (h : availableReport v s path = .ok free) :
    ∃ d all, v.document path = .ok d ∧ collectionsReport v s = .ok all ∧
      free.listed.Sublist all.listed ∧
      (free.listed.map (·.document.path)).Pairwise (· < ·) ∧
      (∀ l ∈ free.listed, l.document.path ≠ path) ∧
      ∀ c, all.Lists c → c.path ≠ path →
        ∀ found, membersReport v s c.path = .ok found → (free.Lists c ↔ ¬ found.Lists d) := by
  simp only [availableReport, bind_eq_ok_iff] at h
  obtain ⟨d, hd, cs, hcs, ds, hds, hfree⟩ := h
  cases hfree
  have hpath : d.path = path := Vault.path_of_document hd
  have hfilter := notContaining_eq_filter hds
  have hsub : ds.Sublist cs := hfilter ▸ List.filter_sublist
  refine ⟨d, _, hd, map_eq_ok_iff.mpr ⟨cs, hcs, rfl⟩, hsub.map _, ?_, ?_, ?_⟩
  · rw [List.map_map]
    exact v.paths_increasing.sublist ((hsub.trans (collections_sublist hcs)).map _)
  · intro l hl
    obtain ⟨c, hc, rfl⟩ := List.mem_map.mp hl
    rw [hfilter] at hc
    have hkept := (List.mem_filter.mp hc).2
    rw [Bool.and_eq_true, bne_iff_ne, hpath] at hkept
    exact hkept.1
  · intro c hall hne found hfound
    have hc : c ∈ cs := Query.lists_linked_iff.mp hall
    have hmem : c ∈ v.documentList := (collections_sublist hcs).subset hc
    rw [lists_membersReport_iff (Vault.mem_documentList_iff.mp hmem) hfound,
      Query.lists_linked_iff, hfilter, List.mem_filter]
    -- the document is in the vault and is not the collection, so the link alone decides
    simp [hc, hne, hpath, Vault.mem_of_document hd]

/-- Of two collections a book is on the first, and the second is open to it. -/
theorem lists_available_iff_of_dune :
    ∃ free all found c, availableReport Sample.shelves .default "books/Dune.md" = .ok free ∧
      free.listedPaths = ["Favorites.md"] ∧
      collectionsReport Sample.shelves .default = .ok all ∧ all.Lists c ∧
      membersReport Sample.shelves .default c.path = .ok found ∧
      (free.Lists c ↔ ¬ found.Lists Sample.dune) := by
  have hrun : ((availableReport Sample.shelves .default "books/Dune.md").map
      Report.listedPaths).toOption = some ["Favorites.md"] := by
    decide +kernel
  have hcollections : ((collectionsReport Sample.shelves .default).map
      Report.listedPaths).toOption = some ["Favorites.md", "lists/Reading.md"] := by
    decide +kernel
  have hmembers : ((membersReport Sample.shelves .default "Favorites.md").map
      Report.listedPaths).toOption = some [] := by
    decide +kernel
  obtain ⟨free, hfree, hpaths⟩ := map_eq_ok_iff.mp (toOption_eq_some_iff.mp hrun)
  obtain ⟨found, hfound, -⟩ := map_eq_ok_iff.mp (toOption_eq_some_iff.mp hmembers)
  obtain ⟨d, all, hd, hall, -, -, -, hiff⟩ := lists_available_iff hfree
  cases hd
  rw [hall] at hcollections
  have hfavorites : "Favorites.md" ∈ all.listedPaths := by
    rw [Option.some.inj hcollections]
    exact List.mem_cons_self ..
  obtain ⟨l, hl, hpath⟩ := List.mem_map.mp hfavorites
  rw [← hpath] at hfound
  refine ⟨free, all, found, l.document, hfree, hpaths, hall, List.mem_map_of_mem hl, hfound, ?_⟩
  exact hiff _ (List.mem_map_of_mem hl) (by rw [hpath]; decide) found hfound

end VaultQuery
