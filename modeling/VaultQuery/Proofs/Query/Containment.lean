import VaultQuery.Proofs.Text.WordEnds
import VaultQuery.Proofs.Vault.Sample

/-! # Finding a part of a text

    A clause asks for a text inside the text form of an attribute, both in lower case and each
    on its own. A part of the text is found unless that gives a capital sigma of the part another
    form than it has in the text.

    * `Operator.holds_contains`: what the two operators ask for;
    * `Operator.holds_contains_part`: which parts are found, and which in every text around them;
    * `Operator.not_holds_contains_part`: not every part is. -/

namespace VaultQuery.Operator

open Text

variable {a : Attribute} {d : Document} {w : Value} {text part : String}

/-- What the operators ask for of an attribute and a value that have text forms. -/
theorem holds_contains (link : Option String) (htext : (a.value d).text? = some text)
    (hpart : w.text? = some part) :
    contains.holds a d w link = .ok (containsIgnoringCase text part) ∧
      noContains.holds a d w link = .ok (!containsIgnoringCase text part) := by
  have hcontains : textContains (a.value d) w = containsIgnoringCase text part := by
    rw [textContains, htext, hpart]
  rw [← hcontains]
  exact ⟨rfl, rfl⟩

/-- **A part of a text is found in it** if its capital sigmas end words in the text exactly where
    they do in the part alone, whatever the attribute and the link. A part is found in every text
    that has it as a part exactly when its capital sigmas end words alike in all of them; a part
    without capital sigmas is one. -/
theorem holds_contains_part (a : Attribute) (part : String) (link : Option String) :
    (∀ d w front back, (a.value d).text? = some (front ++ part ++ back) → w.text? = some part →
      EndsAlike front.toList part.toList back.toList →
        contains.holds a d w link = .ok true ∧ noContains.holds a d w link = .ok false) ∧
    ((∀ text, ∃ d, a.value d = .text text) →
      ((∀ d front back, a.value d = .text (front ++ part ++ back) →
          contains.holds a d (.text part) link = .ok true) ↔
        ∀ front back : String, EndsAlike front.toList part.toList back.toList)) := by
  constructor
  · intro d w front back htext hpart halike
    have hholds := holds_contains link htext hpart
    rwa [contains_of_endsAlike halike] at hholds
  · intro hany
    rw [← contains_everywhere_iff]
    constructor
    · intro hfound front back
      obtain ⟨d, hd⟩ := hany (front ++ part ++ back)
      have htext : (a.value d).text? = some (front ++ part ++ back) := by
        rw [hd]
        rfl
      have hholds := (holds_contains link htext (w := .text part) rfl).1
      exact Except.ok.inj (hholds.symm.trans (hfound d front back hd))
    · intro hfound d front back hd
      have htext : (a.value d).text? = some (front ++ part ++ back) := by
        rw [hd]
        rfl
      rw [(holds_contains link htext (w := .text part) rfl).1, hfound front back]

/-- A title is found by a word of it in capitals, but a part that may end a word is not found in
    every title. -/
theorem holds_contains_part_of_odyssey :
    let title := Attribute.field "title" .any
    title.value (Sample.titled "ΟΜΗΡΟΥ ΟΔΥΣΣΕΙΑ, Α") = .text ("ΟΜΗΡΟΥ " ++ "ΟΔΥΣΣΕΙΑ" ++ ", Α") ∧
      contains.holds title (Sample.titled "ΟΜΗΡΟΥ ΟΔΥΣΣΕΙΑ, Α") (.text "ΟΔΥΣΣΕΙΑ") none
        = .ok true ∧
      (∀ text, title.value (Sample.titled text) = .text text) ∧
      ¬ ∀ d front back, title.value d = .text (front ++ "ΟΔΥΣ" ++ back) →
        contains.holds title d (.text "ΟΔΥΣ") none = .ok true := by
  intro title
  have htext : title.value (Sample.titled "ΟΜΗΡΟΥ ΟΔΥΣΣΕΙΑ, Α")
      = .text ("ΟΜΗΡΟΥ " ++ "ΟΔΥΣΣΕΙΑ" ++ ", Α") := rfl
  have halike : EndsAlike "ΟΜΗΡΟΥ ".toList "ΟΔΥΣΣΕΙΑ".toList ", Α".toList := by
    decide +kernel
  refine ⟨htext, ((holds_contains_part title "ΟΔΥΣΣΕΙΑ" none).1 _ _ _ _
    (congrArg Value.text? htext) rfl halike).1, fun text => rfl, fun hfound => ?_⟩
  have heverywhere := ((holds_contains_part title "ΟΔΥΣ" none).2
    fun text => ⟨Sample.titled text, rfl⟩).mp hfound
  have hnot : ¬ EndsAlike "".toList "ΟΔΥΣ".toList "ΣΕΙΑ".toList := by decide +kernel
  exact hnot (heverywhere "" "ΣΕΙΑ")

/-- **Not every part of a text is found in it.** What is typed of a title in capitals ends with a
    final sigma; in the title the word goes on. -/
theorem not_holds_contains_part :
    let title := Attribute.field "title" .any
    title.value (Sample.titled "ΟΔΥΣΣΕΙΑ") = .text ("" ++ "ΟΔΥΣ" ++ "ΣΕΙΑ") ∧
      ¬ (contains.holds title (Sample.titled "ΟΔΥΣΣΕΙΑ") (.text "ΟΔΥΣ") none = .ok true ∧
        noContains.holds title (Sample.titled "ΟΔΥΣΣΕΙΑ") (.text "ΟΔΥΣ") none = .ok false) := by
  intro title
  refine ⟨rfl, fun hfound => ?_⟩
  have hholds := (holds_contains (a := title) (d := Sample.titled "ΟΔΥΣΣΕΙΑ") (w := .text "ΟΔΥΣ")
    none rfl rfl).1
  have hnot : containsIgnoringCase "ΟΔΥΣΣΕΙΑ" "ΟΔΥΣ" = false := by decide +kernel
  rw [hnot, hfound.1] at hholds
  cases hholds

end VaultQuery.Operator
