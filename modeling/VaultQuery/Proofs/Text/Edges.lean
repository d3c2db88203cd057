import Mathlib.Data.List.TakeWhile
import VaultQuery.Text.Blank

/-! # The edges of texts

    Cutting the edges takes the blanks there and nothing else.

    * `trimLeft_cons`, `trimRight_concat`, `trimChars_cons`: a character that is not blank stays;
    * `trimChars_of_trimmed`: nothing is cut from a trimmed text;
    * `trimChars_blanks`: blanks around a trimmed text are cut;
    * `mem_trimChars_iff`: every character that is not blank stays. -/

namespace VaultQuery.Text

variable {cs before after : List Char}

/-- A text that does not begin with a blank has none to be cut. -/
theorem trimLeft_cons {c : Char} (h : isBlank c = false) (cs : List Char) :
    trimLeft (c :: cs) = c :: cs := by
  rw [trimLeft, List.dropWhile_cons, h]
  rfl

/-- A text that does not end in a blank has none to be cut there. -/
theorem trimRight_concat {c : Char} (h : isBlank c = false) (cs : List Char) :
    trimRight (cs ++ [c]) = cs ++ [c] := by
  have hkeep : (c :: cs.reverse).dropWhile isBlank = c :: cs.reverse := trimLeft_cons h _
  rw [trimRight, List.reverse_append, List.reverse_singleton, List.singleton_append, hkeep,
    List.reverse_cons, List.reverse_reverse]

/-- A character that is not blank is still the first after the edges are cut. -/
theorem trimChars_cons {c : Char} (h : isBlank c = false) (cs : List Char) :
    ∃ rest, trimChars (c :: cs) = c :: rest := by
  have hlast : [c].dropWhile isBlank = [c] := trimLeft_cons h []
  rw [trimChars, trimLeft_cons h, trimRight, List.reverse_cons, List.dropWhile_append, hlast]
  by_cases hempty : (cs.reverse.dropWhile isBlank).isEmpty = true
  · exact ⟨[], by rw [if_pos hempty]; rfl⟩
  · exact ⟨(cs.reverse.dropWhile isBlank).reverse, by rw [if_neg hempty]; simp⟩

theorem trimLeft_of_trimmed (h : Trimmed cs) : trimLeft cs = cs := by
  cases cs with
  | nil => rfl
  | cons c cs => exact trimLeft_cons (h.1 c rfl) cs

theorem trimRight_of_trimmed (h : Trimmed cs) : trimRight cs = cs := by
  rcases List.eq_nil_or_concat cs with rfl | ⟨cs, c, rfl⟩
  · rfl
  · rw [List.concat_eq_append] at h ⊢
    exact trimRight_concat (h.2 c List.getLast?_concat) cs

/-- Nothing is cut from a trimmed text. -/
theorem trimChars_of_trimmed (h : Trimmed cs) : trimChars cs = cs := by
  rw [trimChars, trimLeft_of_trimmed h, trimRight_of_trimmed h]

/-- A text without blanks is trimmed. -/
theorem trimmed_of_forall (h : ∀ c ∈ cs, isBlank c = false) : Trimmed cs :=
  ⟨fun c hc => h c (List.mem_of_mem_head? hc), fun c hc => h c (List.mem_of_mem_getLast? hc)⟩

/-- The same, as it is computed. -/
theorem trimmed_of_all (h : cs.all (!isBlank ·) = true) : Trimmed cs :=
  trimmed_of_forall fun c hc => (Bool.not_eq_true' _).mp (List.all_eq_true.mp h c hc)

/-- **Blanks around a trimmed text are cut.** -/
theorem trimChars_blanks (hbefore : ∀ c ∈ before, isBlank c = true)
    (hafter : ∀ c ∈ after, isBlank c = true) (h : Trimmed cs) :
    trimChars (before ++ (cs ++ after)) = cs := by
  have hleft : trimLeft (before ++ (cs ++ after)) = trimLeft (cs ++ after) :=
    List.dropWhile_append_of_pos hbefore
  have hright : trimRight (cs ++ after) = cs := by
    have hreverse : ∀ c ∈ after.reverse, isBlank c = true :=
      fun c hc => hafter c (List.mem_reverse.mp hc)
    rw [trimRight, List.reverse_append, List.dropWhile_append_of_pos hreverse]
    exact trimRight_of_trimmed h
  rw [trimChars, hleft]
  cases cs with
  | nil =>
      have hnil : trimLeft ([] ++ after) = [] := List.dropWhile_eq_nil_iff.mpr hafter
      rw [hnil]
      rfl
  | cons c cs => rw [List.cons_append, trimLeft_cons (h.1 c rfl), ← List.cons_append, hright]

/-- Only blanks are lost at the beginning. -/
theorem mem_trimLeft_iff {c : Char} (h : isBlank c = false) : c ∈ trimLeft cs ↔ c ∈ cs := by
  constructor
  · exact fun hc => (List.dropWhile_suffix isBlank).subset hc
  · intro hc
    rw [← List.takeWhile_append_dropWhile (p := isBlank) (l := cs), List.mem_append] at hc
    rcases hc with hc | hc
    · have hblank := List.mem_takeWhile_imp hc
      rw [h] at hblank
      cases hblank
    · exact hc

/-- **Only blanks are lost** when the edges are cut. -/
theorem mem_trimChars_iff {c : Char} (h : isBlank c = false) : c ∈ trimChars cs ↔ c ∈ cs := by
  have hright : c ∈ trimRight (trimLeft cs) ↔ c ∈ trimLeft (trimLeft cs).reverse :=
    List.mem_reverse
  rw [trimChars, hright, mem_trimLeft_iff h, List.mem_reverse, mem_trimLeft_iff h]

end VaultQuery.Text
