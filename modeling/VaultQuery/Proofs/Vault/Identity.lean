import Mathlib.Data.List.TakeWhile
import VaultQuery.Proofs.Vault.Documents
import VaultQuery.Proofs.Vault.Sample

/-! # Links identify documents

    A link is a name while the name is unique and a path without its extension otherwise, and
    both stand in the same brackets. A name never has a slash, and in the root of the vault a
    path without its extension is the name; so no document is taken for another, as long as
    both are stored with the extension of documents.

    * `nameOfPath_append`, `stemOfPath_append`: name and stem of a path with the extension;
    * `Document.name_eq_pathStem`: in the root they are one;
    * `Vault.link_eq_link_iff`: documents with one link are one document. -/

namespace VaultQuery

/-! ## Names and stems -/

theorem slash_not_mem_lastSegment (cs : List Char) : '/' ∉ lastSegment cs := by
  intro hmem
  have htaken : '/' ∈ cs.reverse.takeWhile (· != '/') := List.mem_reverse.mp hmem
  have hslash := List.mem_takeWhile_imp htaken
  exact absurd rfl (bne_iff_ne.mp hslash)

/-- Without a slash there is one segment. -/
theorem lastSegment_of_not_mem {cs : List Char} (h : '/' ∉ cs) : lastSegment cs = cs := by
  have hall : cs.reverse.takeWhile (· != '/') = cs.reverse := by
    refine List.takeWhile_eq_self_iff.mpr ?_
    intro c hc
    refine bne_iff_ne.mpr ?_
    rintro rfl
    exact h (List.mem_reverse.mp hc)
  rw [lastSegment, hall, List.reverse_reverse]

/-- The extension belongs to the last segment. -/
theorem lastSegment_append (stem : List Char) :
    lastSegment (stem ++ documentExtension) = lastSegment stem ++ documentExtension := by
  rw [lastSegment, lastSegment, List.reverse_append]
  show ('d' :: 'm' :: '.' :: stem.reverse.takeWhile (· != '/')).reverse = _
  rw [List.reverse_cons, List.reverse_cons, List.reverse_cons, List.append_assoc,
    List.append_assoc]
  rfl

/-- Without the extension only the stem is left; an extension alone is no extension. -/
theorem withoutExtension_append (stem : List Char) :
    withoutExtension (stem ++ documentExtension)
      = if stem = [] then documentExtension else stem := by
  have hfront : ((stem ++ documentExtension).reverse.dropWhile (· != '.')).reverse.dropLast
      = stem := by
    rw [List.reverse_append]
    show ('.' :: stem.reverse).reverse.dropLast = stem
    rw [List.reverse_cons, List.reverse_reverse, List.dropLast_concat]
  rw [withoutExtension, hfront]
  cases stem with
  | nil => rfl
  | cons c cs => rfl

/-- The name of a path with the extension is its last segment without it. -/
theorem nameOfPath_append (stem : List Char) :
    nameOfPath (String.ofList (stem ++ documentExtension))
      = String.ofList (if lastSegment stem = [] then documentExtension else lastSegment stem) := by
  rw [nameOfPath, String.toList_ofList, lastSegment_append, withoutExtension_append]

theorem stemOfPath_append (stem : List Char) :
    stemOfPath (String.ofList (stem ++ documentExtension)) = String.ofList stem := by
  have hsuffix : documentExtension.isSuffixOf (stem ++ documentExtension) = true :=
    List.isSuffixOf_iff_suffix.mpr (List.suffix_append stem documentExtension)
  have hlength : (stem ++ documentExtension).length - 3 = stem.length := by
    rw [List.length_append]
    rfl
  simp only [stemOfPath, String.toList_ofList]
  rw [if_pos hsuffix, hlength, List.take_left]

namespace Document

variable {d : Document}

/-- The document is stored with the extension of documents. -/
def HasExtension (d : Document) : Prop := documentExtension <:+ d.path.toList

instance (d : Document) : Decidable d.HasExtension :=
  inferInstanceAs (Decidable (_ <:+ _))

/-- The path of such a document is its stem and the extension. -/
theorem path_eq_pathStem (h : d.HasExtension) :
    d.path = String.ofList (d.pathStem.toList ++ documentExtension) := by
  obtain ⟨stem, hstem⟩ := h
  have hpath : d.path = String.ofList (stem ++ documentExtension) := by
    rw [hstem, String.ofList_toList]
  rw [pathStem, hpath, stemOfPath_append, String.toList_ofList]

theorem name_eq_lastSegment (h : d.HasExtension) :
    d.name.toList
      = if lastSegment d.pathStem.toList = [] then documentExtension
        else lastSegment d.pathStem.toList := by
  rw [name, path_eq_pathStem h, nameOfPath_append, String.toList_ofList]

theorem name_ne_nil (h : d.HasExtension) : d.name.toList ≠ [] := by
  rw [name_eq_lastSegment h]
  split
  · exact List.cons_ne_nil _ _
  · rename_i hne
    exact hne

theorem slash_not_mem_name (h : d.HasExtension) : '/' ∉ d.name.toList := by
  rw [name_eq_lastSegment h]
  split
  · decide
  · exact slash_not_mem_lastSegment _

/-- **In the root of the vault the path without its extension is the name.** -/
theorem name_eq_pathStem (h : d.HasExtension) (hroot : '/' ∉ d.pathStem.toList)
    (hne : d.pathStem.toList ≠ []) : d.name = d.pathStem := by
  refine String.toList_inj.mp ?_
  rw [name_eq_lastSegment h, lastSegment_of_not_mem hroot, if_neg hne]

/-- A stem that is the name of some document belongs to a document of that name. -/
theorem name_eq_of_pathStem_eq {c : Document} (hd : d.HasExtension) (hc : c.HasExtension)
    (h : d.name = c.pathStem) : d.name = c.name := by
  have hroot : '/' ∉ c.pathStem.toList := by
    rw [← h]
    exact slash_not_mem_name hd
  have hne : c.pathStem.toList ≠ [] := by
    rw [← h]
    exact name_ne_nil hd
  rw [h, name_eq_pathStem hc hroot hne]

end Document

/-! ## Links -/

namespace Vault

variable {v : Vault} {d c : Document}

/-- The link by name of one document is not the link by path of another: the other one would
    have that name too. -/
theorem link_ne_of_isOnlyName (hc : c ∈ v.documentList) (hpath : c.path ≠ d.path)
    (hde : d.HasExtension) (hce : c.HasExtension) (honly : v.isOnlyName d = true)
    (hshared : ¬ v.isOnlyName c = true) : v.link d ≠ v.link c := by
  intro hlink
  rw [link_of_isOnlyName honly, link_of_not_isOnlyName hshared, bracketed_inj] at hlink
  have hname : d.name = c.name := Document.name_eq_of_pathStem_eq hde hce hlink
  exact isOnlyName_iff.mp honly c hc hpath hname.symm

/-- **Links identify documents.** Whatever else is in the vault, two of its documents that
    are stored with the extension of documents have one link only if they are one. -/
theorem link_eq_link_iff (hd : d ∈ v.documentList) (hc : c ∈ v.documentList)
    (hde : d.HasExtension) (hce : c.HasExtension) : v.link d = v.link c ↔ d = c := by
  constructor
  · intro hlink
    refine eq_of_path_eq hd hc ?_
    by_cases hpath : d.path = c.path
    · exact hpath
    exfalso
    -- the form of a link is decided by whether the name is unique
    by_cases honly : v.isOnlyName d = true
    · by_cases honly' : v.isOnlyName c = true
      · rw [link_of_isOnlyName honly, link_of_isOnlyName honly', bracketed_inj] at hlink
        exact isOnlyName_iff.mp honly c hc (Ne.symm hpath) hlink.symm
      · exact link_ne_of_isOnlyName hc (Ne.symm hpath) hde hce honly honly' hlink
    · by_cases honly' : v.isOnlyName c = true
      · exact link_ne_of_isOnlyName hd hpath hce hde honly' honly hlink.symm
      · rw [link_of_not_isOnlyName honly, link_of_not_isOnlyName honly', bracketed_inj] at hlink
        rw [Document.path_eq_pathStem hde, Document.path_eq_pathStem hce, hlink] at hpath
        exact hpath rfl
  · rintro rfl
    rfl

/-- A hidden file in the root and one in a folder have one name, and a third file has the
    stem of neither. -/
theorem link_eq_link_iff_of_hidden :
    Sample.hidden ∈ Sample.attic.documentList ∧ Sample.hiddenAway ∈ Sample.attic.documentList ∧
      Sample.hidden.HasExtension ∧ Sample.hiddenAway.HasExtension ∧
      Sample.hidden.name = Sample.hiddenAway.name ∧
      Sample.attic.link Sample.hidden ≠ Sample.attic.link Sample.hiddenAway := by
  have hdocuments : Sample.attic.documentList
      = [Sample.hidden, Sample.bare, Sample.hiddenAway] := rfl
  have hd : Sample.hidden ∈ Sample.attic.documentList := by
    rw [hdocuments]
    exact List.mem_cons_self ..
  have hc : Sample.hiddenAway ∈ Sample.attic.documentList := by
    rw [hdocuments]
    exact List.mem_cons_of_mem _ (List.mem_cons_of_mem _ (List.mem_singleton.mpr rfl))
  have hde : Sample.hidden.HasExtension := by decide
  have hce : Sample.hiddenAway.HasExtension := by decide
  refine ⟨hd, hc, hde, hce, rfl, ?_⟩
  intro hlink
  have hpath := congrArg Document.path ((link_eq_link_iff hd hc hde hce).mp hlink)
  exact absurd hpath (by decide)

end Vault
end VaultQuery
