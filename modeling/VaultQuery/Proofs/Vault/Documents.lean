import VaultQuery.Proofs.Vault.Links

/-! # Documents in order, and documents overwritten

    The documents of a vault stand in the order of their paths, each path once. To put a
    document over another one of the same path changes that place and nothing else; links
    are made of paths and stay.

    * `Dictionary.insertEntry_of_mem`: an entry written over an older one;
    * `Vault.paths_increasing`: no path comes twice;
    * `Vault.documentList_put`: a document put over another;
    * `Vault.link_put`: links stay. -/

namespace VaultQuery

namespace Dictionary

variable {α : Type} {name : String}

/-- Written over an older one, an entry takes its place. -/
theorem insertEntry_of_mem (value : α) {entries : List (String × α)}
    (hsorted : entries.Pairwise fun a b => a.1 < b.1) (h : name ∈ entries.map (·.1)) :
    insertEntry name value entries
      = entries.map fun e => if e.1 = name then (name, value) else e := by
  induction entries with
  | nil => exact nomatch h
  | cons a rest ih =>
      obtain ⟨n, v⟩ := a
      obtain ⟨hfirst, hrest⟩ := List.pairwise_cons.mp hsorted
      rw [List.map_cons, insertEntry]
      -- the names after the first are greater, so the name is not before it
      have hle : ¬ name < n := by
        intro hlt
        rcases List.mem_cons.mp h with heq | hmem
        · exact String.lt_irrefl _ (heq ▸ hlt)
        · obtain ⟨e, he, hname⟩ := List.mem_map.mp hmem
          have hgt : n < name := hname ▸ hfirst e he
          exact String.lt_irrefl _ (String.lt_trans hlt hgt)
      rw [if_neg hle]
      by_cases heq : name = n
      · subst heq
        rw [if_pos rfl, if_pos rfl]
        congr 1
        -- no later entry has the name
        have hother : ∀ e ∈ rest, (if e.1 = name then (name, value) else e) = e := by
          intro e he
          rw [if_neg]
          intro hname
          have hlt : name < e.1 := hfirst e he
          rw [hname] at hlt
          exact String.lt_irrefl _ hlt
        rw [List.map_congr_left hother, List.map_id']
      · rw [if_neg heq, if_neg (Ne.symm heq)]
        have hmem : name ∈ rest.map (·.1) := by
          rcases List.mem_cons.mp h with h | h
          · exact absurd h heq
          · exact h
        rw [ih hrest hmem]

end Dictionary

namespace Vault

variable {v : Vault} {d n c : Document} {path : String}

/-! ## The order of documents -/

/-- The entries of a vault are its documents under their paths. -/
theorem entries_eq (v : Vault) :
    v.documents.entries = v.documentList.map fun d => (d.path, d) := by
  have hself : ∀ e ∈ v.documents.entries, (e.2.path, e.2) = e := by
    intro e he
    rw [v.own_path e he]
  rw [documentList, Dictionary.values, List.map_map]
  exact (List.map_id' _).symm.trans (List.map_congr_left fun e he => (hself e he).symm)

/-- **Documents stand in the order of their paths**, no path twice. -/
theorem paths_increasing (v : Vault) :
    (v.documentList.map (·.path)).Pairwise (· < ·) := by
  have h := v.documents.increasing
  rw [entries_eq, List.pairwise_map] at h
  rw [List.pairwise_map]
  exact h

/-- Documents of one path are one document. -/
theorem eq_of_path_eq (hd : d ∈ v.documentList) (hc : c ∈ v.documentList)
    (h : d.path = c.path) : d = c := by
  rw [mem_documentList_iff] at hd hc
  rw [h] at hd
  exact Except.ok.inj (hd.symm.trans hc)

/-! ## A document put over another -/

/-- A document put over another one of its path changes that place and nothing else. -/
theorem documentList_put (hd : d ∈ v.documentList) (hpath : n.path = d.path) :
    (v.put n).documentList
      = v.documentList.map fun x => if x.path = n.path then n else x := by
  have hmem : n.path ∈ v.documents.entries.map (·.1) := by
    rw [entries_eq, List.map_map, hpath]
    exact List.mem_map.mpr ⟨d, hd, rfl⟩
  have hentries : (v.put n).documents.entries
      = v.documents.entries.map fun e => if e.1 = n.path then (n.path, n) else e :=
    Dictionary.insertEntry_of_mem n v.documents.increasing hmem
  rw [documentList, Dictionary.values, hentries, entries_eq, List.map_map, List.map_map]
  refine List.map_congr_left fun x _ => ?_
  show (if x.path = n.path then (n.path, n) else (x.path, x)).2 = _
  split
  · rfl
  · rfl

/-- The documents after one was put in are this one and those that were there. -/
theorem mem_documentList_put (h : d ∈ (v.put n).documentList) : d = n ∨ d ∈ v.documentList := by
  rw [mem_documentList_iff, document_put] at h
  by_cases hpath : n.path = d.path
  · rw [if_pos hpath] at h
    exact Or.inl (Except.ok.inj h).symm
  · rw [if_neg hpath] at h
    exact Or.inr (mem_documentList_iff.mpr h)

/-- Links are made of the paths in the vault. -/
theorem link_congr {v v' : Vault}
    (h : v'.documentList.map (·.path) = v.documentList.map (·.path)) (hpath : n.path = c.path) :
    v'.link n = v.link c := by
  have hname : n.name = c.name := by rw [Document.name, Document.name, hpath]
  have hstem : n.pathStem = c.pathStem := by rw [Document.pathStem, Document.pathStem, hpath]
  have hall : ∀ u : Vault, u.isOnlyName c
      = (u.documentList.map (·.path)).all fun p => p == c.path || nameOfPath p != c.name := by
    intro u
    rw [isOnlyName, List.all_map]
    rfl
  have honly : v'.isOnlyName n = v.isOnlyName c := by
    have hsame : v'.isOnlyName n = v'.isOnlyName c := by
      rw [isOnlyName, isOnlyName, hpath, hname]
    rw [hsame, hall, hall, h]
  rw [link, link, honly, hname, hstem]

theorem map_path_put (hd : d ∈ v.documentList) (hpath : n.path = d.path) :
    (v.put n).documentList.map (·.path) = v.documentList.map (·.path) := by
  rw [documentList_put hd hpath, List.map_map]
  refine List.map_congr_left fun x _ => ?_
  show (if x.path = n.path then n else x).path = x.path
  split
  · rename_i heq
    exact heq.symm
  · rfl

/-- To put a document over another changes no link. -/
theorem link_put (hd : d ∈ v.documentList) (hpath : n.path = d.path) (c : Document) :
    (v.put n).link c = v.link c :=
  link_congr (map_path_put hd hpath) rfl

end Vault
end VaultQuery
