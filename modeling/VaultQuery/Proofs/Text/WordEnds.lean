import VaultQuery.Text.Occurrence

/-! # Parts of a text in lower case

    Most characters are made small one by one, so that a part of a text has the same lower case
    wherever it stands. The capital sigma is not: the letters around it decide whether it ends a
    word.

    * `lowercasePart`: the lower case of a part between what stands around it;
    * `EndsAlike`: the capital sigmas of a part end words exactly where they do in the part alone;
    * `contains_of_endsAlike`: then the part is found in the text;
    * `contains_everywhere_iff`: a part is found whatever stands around it only if its capital
      sigmas end words alike whatever stands around it. -/

namespace VaultQuery.Text

variable {c : Char} {before after before' after' part a b : List Char} {w : Bool}

/-! ## One character after the other -/

/-- The small form of a capital sigma. -/
def sigmaForm (endsWord : Bool) : Char := if endsWord then 'ς' else 'σ'

/-- The lower case of a character between those `before` it, the nearest first, and those
    `after` it. -/
def lowercaseChar (before : List Char) (c : Char) (after : List Char) : List Char :=
  if c = 'Σ' then [sigmaForm (isWordEnd before after)]
  else if c = 'İ' then ['i', '\u0307']
  else [smallForm c]

/-- The lower case of a part of a text between `before`, the nearest first, and `after`. -/
def lowercasePart (before after : List Char) : List Char → List Char
  | [] => []
  | c :: cs => lowercaseChar before c (cs ++ after) ++ lowercasePart (c :: before) after cs

theorem lowercaseFrom_cons (before : List Char) (c : Char) (cs : List Char) :
    lowercaseFrom before (c :: cs) = lowercaseChar before c cs ++ lowercaseFrom (c :: before) cs := by
  rw [lowercaseFrom.eq_def, lowercaseChar]
  split
  · rename_i heq
    cases heq
  · rename_i heq
    cases heq
    rfl
  · rename_i heq
    cases heq
    rfl
  · rename_i hsigma hdotted heq
    cases heq
    rw [if_neg hsigma, if_neg hdotted]
    rfl

theorem lowercaseFrom_eq_part (before cs : List Char) :
    lowercaseFrom before cs = lowercasePart before [] cs := by
  induction cs generalizing before with
  | nil => rfl
  | cons c cs ih => rw [lowercaseFrom_cons, ih, lowercasePart, List.append_nil]

/-- Each of two parts has the other beside it. -/
theorem lowercasePart_append (before after a b : List Char) :
    lowercasePart before after (a ++ b)
      = lowercasePart before (b ++ after) a ++ lowercasePart (a.reverse ++ before) after b := by
  induction a generalizing before with
  | nil => rfl
  | cons c a ih =>
      rw [List.cons_append, lowercasePart, ih, lowercasePart, List.append_assoc, List.append_assoc,
        List.reverse_cons, List.append_assoc]
      rfl

theorem toList_lowercase (s : String) : (lowercase s).toList = lowercasePart [] [] s.toList := by
  rw [lowercase, String.toList_ofList, lowercaseFrom_eq_part]

/-- The lower case of a text in three parts. -/
theorem toList_lowercase_append (front part back : String) :
    (lowercase (front ++ part ++ back)).toList
      = lowercasePart [] (part.toList ++ back.toList) front.toList
        ++ lowercasePart front.toList.reverse back.toList part.toList
        ++ lowercasePart (part.toList.reverse ++ front.toList.reverse) [] back.toList := by
  rw [toList_lowercase, String.toList_append, String.toList_append, lowercasePart_append,
    lowercasePart_append, List.reverse_append]
  simp only [List.append_nil]

/-! ## Two places for one part -/

/-- At every capital sigma of the part, what decides its form in one place and what decides it in
    another are related. -/
def AtSigmas (R : Bool → Bool → Prop) (before after before' after' part : List Char) : Prop :=
  ∀ a b, part = a ++ 'Σ' :: b →
    R (isWordEnd (a.reverse ++ before) (b ++ after)) (isWordEnd (a.reverse ++ before') (b ++ after'))

namespace AtSigmas

variable {R : Bool → Bool → Prop}

theorem left (h : AtSigmas R before after before' after' (a ++ b)) :
    AtSigmas R before (b ++ after) before' (b ++ after') a := by
  intro x y hsplit
  have hxy := h x (y ++ b) (by rw [hsplit, List.append_assoc]; rfl)
  rwa [List.append_assoc, List.append_assoc] at hxy

theorem right (h : AtSigmas R before after before' after' (a ++ b)) :
    AtSigmas R (a.reverse ++ before) after (a.reverse ++ before') after' b := by
  intro x y hsplit
  have hxy := h (a ++ x) y (by rw [hsplit, List.append_assoc])
  rwa [List.reverse_append, List.append_assoc, List.append_assoc] at hxy

theorem head (h : AtSigmas R before after before' after' ('Σ' :: part)) :
    R (isWordEnd before (part ++ after)) (isWordEnd before' (part ++ after')) :=
  h [] part rfl

theorem tail (h : AtSigmas R before after before' after' (c :: part)) :
    AtSigmas R (c :: before) after (c :: before') after' part :=
  right (a := [c]) h

end AtSigmas

/-- Two lower cases of a part differ at most where a capital sigma ends a word in one place and
    not in the other. -/
theorem lowercasePart_congr (h : AtSigmas Eq before after before' after' part) :
    lowercasePart before after part = lowercasePart before' after' part := by
  induction part generalizing before before' with
  | nil => rfl
  | cons c part ih =>
      have hfirst : lowercaseChar before c (part ++ after)
          = lowercaseChar before' c (part ++ after') := by
        rw [lowercaseChar, lowercaseChar]
        by_cases hc : c = 'Σ'
        · subst hc
          rw [h.head]
        · rw [if_neg hc, if_neg hc]
      rw [lowercasePart, lowercasePart, hfirst, ih h.tail]

/-! ## Counting small sigmas -/

theorem sigmaForm_injective {v w : Bool} (h : sigmaForm v = sigmaForm w) : v = w := by
  cases v <;> cases w <;> first | rfl | exact absurd h (by decide)

/-- A capital sigma has one small form. -/
theorem count_sigmaForm (before after : List Char) (w : Bool) :
    (lowercaseChar before 'Σ' after).count (sigmaForm w)
      = if isWordEnd before after = w then 1 else 0 := by
  rw [lowercaseChar, if_pos rfl, List.count_singleton]
  by_cases hends : isWordEnd before after = w
  · rw [if_pos hends, hends, beq_self_eq_true, if_pos rfl]
  · rw [if_neg hends, if_neg fun heq => hends (sigmaForm_injective (eq_of_beq heq))]

/-- If every capital sigma that has one of the two forms here has it there too, that form is not
    more frequent here. -/
theorem count_lowercasePart_le
    (h : AtSigmas (fun here there => here = w → there = w) before after before' after' part) :
    (lowercasePart before after part).count (sigmaForm w)
      ≤ (lowercasePart before' after' part).count (sigmaForm w) := by
  induction part generalizing before before' with
  | nil => exact Nat.le_refl _
  | cons c part ih =>
      have hfirst : (lowercaseChar before c (part ++ after)).count (sigmaForm w)
          ≤ (lowercaseChar before' c (part ++ after')).count (sigmaForm w) := by
        by_cases hc : c = 'Σ'
        · subst hc
          rw [count_sigmaForm, count_sigmaForm]
          by_cases hends : isWordEnd before (part ++ after) = w
          · refine Nat.le_of_eq ?_
            rw [if_pos hends, if_pos (h.head hends)]
          · rw [if_neg hends]
            exact Nat.zero_le _
        · refine Nat.le_of_eq ?_
          rw [lowercaseChar, lowercaseChar, if_neg hc, if_neg hc]
      rw [lowercasePart, lowercasePart, List.count_append, List.count_append]
      exact Nat.add_le_add hfirst (ih h.tail)

/-- If one capital sigma has that form there and not here, it is less frequent here. -/
theorem count_lowercasePart_lt
    (h : AtSigmas (fun here there => here = w → there = w) before after before' after'
      (a ++ 'Σ' :: b))
    (hhere : isWordEnd (a.reverse ++ before) (b ++ after) ≠ w)
    (hthere : isWordEnd (a.reverse ++ before') (b ++ after') = w) :
    (lowercasePart before after (a ++ 'Σ' :: b)).count (sigmaForm w)
      < (lowercasePart before' after' (a ++ 'Σ' :: b)).count (sigmaForm w) := by
  have hleft := count_lowercasePart_le h.left
  have hright := count_lowercasePart_le h.right.tail
  rw [lowercasePart_append, lowercasePart_append, List.count_append, List.count_append,
    lowercasePart, lowercasePart, List.count_append, List.count_append, count_sigmaForm,
    count_sigmaForm, if_neg hhere, if_pos hthere]
  omega

/-! ## What comes next -/

theorem casedComesNext_cons (c : Char) (cs : List Char) :
    casedComesNext (c :: cs) = if isCaseIgnorable c then casedComesNext cs else isCased c := by
  rw [casedComesNext, List.dropWhile_cons]
  cases hc : isCaseIgnorable c with
  | true => rfl
  | false => rfl

/-- A letter with case that comes next does so whatever follows. -/
theorem casedComesNext_append (h : casedComesNext a = true) (b : List Char) :
    casedComesNext (a ++ b) = true := by
  induction a with
  | nil => cases h
  | cons c a ih =>
      rw [casedComesNext_cons] at h
      rw [List.cons_append, casedComesNext_cons]
      cases hc : isCaseIgnorable c with
      | true =>
          rw [hc, if_pos rfl] at h
          exact ih h
      | false =>
          rw [hc, if_neg Bool.false_ne_true] at h
          exact h

/-- If what follows can make a letter with case come next, an `A` can. -/
theorem casedComesNext_letter (h : casedComesNext (a ++ b) = true) :
    casedComesNext (a ++ ['A']) = true := by
  induction a with
  | nil => decide +kernel
  | cons c a ih =>
      rw [List.cons_append, casedComesNext_cons] at h
      rw [List.cons_append, casedComesNext_cons]
      cases hc : isCaseIgnorable c with
      | true =>
          rw [hc, if_pos rfl] at h
          exact ih h
      | false =>
          rw [hc, if_neg Bool.false_ne_true] at h
          exact h

theorem isWordEnd_eq_true_iff :
    isWordEnd before after = true ↔
      casedComesNext before = true ∧ casedComesNext after = false := by
  rw [isWordEnd, Bool.and_eq_true, Bool.not_eq_true']

/-! ## What is found -/

/-- In the part between `front` and `back` a capital sigma ends a word exactly when it does in the
    part alone. -/
def EndsAlike (front part back : List Char) : Prop :=
  ∀ a b, part = a ++ 'Σ' :: b →
    isWordEnd (a.reverse ++ front.reverse) (b ++ back) = isWordEnd a.reverse b

/-- Whether they do is found out one capital sigma after the other. -/
instance (front part back : List Char) : Decidable (EndsAlike front part back) :=
  decidable_of_iff
    (∀ i, i < part.length → part[i]? = some 'Σ' →
      isWordEnd ((part.take i).reverse ++ front.reverse) (part.drop (i + 1) ++ back)
        = isWordEnd (part.take i).reverse (part.drop (i + 1)))
    (by
      constructor
      · rintro h a b rfl
        simpa using h a.length (by simp) (by simp)
      · intro h i hi hsigma
        refine h (part.take i) (part.drop (i + 1)) ?_
        rw [← (List.getElem?_eq_some_iff.mp hsigma).2, ← List.drop_eq_getElem_cons hi,
          List.take_append_drop])

/-- **A part of a text is found in it, cases aside**, if its capital sigmas end words in the text
    exactly where they do in the part alone. -/
theorem contains_of_endsAlike {front part back : String}
    (h : EndsAlike front.toList part.toList back.toList) :
    containsIgnoringCase (front ++ part ++ back) part = true := by
  have hpart : lowercasePart front.toList.reverse back.toList part.toList
      = lowercasePart [] [] part.toList := by
    refine lowercasePart_congr fun a b hsplit => ?_
    rw [List.append_nil, List.append_nil]
    exact h a b hsplit
  rw [containsIgnoringCase, occursIn_iff, toList_lowercase_append, toList_lowercase part, hpart]
  exact ⟨_, _, rfl⟩

/-- What contains a text has each of its characters at least as often. -/
theorem count_le_of_contains {text part : String} (h : containsIgnoringCase text part = true)
    (c : Char) : (lowercase part).toList.count c ≤ (lowercase text).toList.count c := by
  rw [containsIgnoringCase] at h
  obtain ⟨front, back, heq⟩ := occursIn_iff.mp h
  rw [heq, List.count_append, List.count_append]
  omega

/-- A part is not found where one of its capital sigmas loses its form and none takes that form
    instead, neither in the part nor around it. -/
theorem not_contains_of_sigmas {front part back : String}
    (hsigmas : AtSigmas (fun here there => here = w → there = w) front.toList.reverse back.toList
      [] [] part.toList)
    (hpart : part.toList = a ++ 'Σ' :: b)
    (hhere : isWordEnd (a.reverse ++ front.toList.reverse) (b ++ back.toList) ≠ w)
    (hthere : isWordEnd a.reverse b = w)
    (hfront : (lowercasePart [] (part.toList ++ back.toList) front.toList).count (sigmaForm w) = 0)
    (hback : (lowercasePart (part.toList.reverse ++ front.toList.reverse) [] back.toList).count
      (sigmaForm w) = 0) :
    containsIgnoringCase (front ++ part ++ back) part ≠ true := by
  intro hfound
  have hle := count_le_of_contains hfound (sigmaForm w)
  rw [toList_lowercase, toList_lowercase_append, List.count_append, List.count_append, hfront,
    hback, Nat.zero_add, Nat.add_zero] at hle
  have hlt : (lowercasePart front.toList.reverse back.toList part.toList).count (sigmaForm w)
      < (lowercasePart [] [] part.toList).count (sigmaForm w) := by
    rw [hpart] at hsigmas ⊢
    refine count_lowercasePart_lt hsigmas hhere ?_
    rw [List.append_nil, List.append_nil]
    exact hthere
  exact absurd hlt (Nat.not_lt.mpr hle)

/-- Behind a letter with case a capital sigma may end a word that ends none in the part alone. A
    small sigma is missing then. -/
theorem not_contains_behind_letter {part : String} (hpart : part.toList = a ++ 'Σ' :: b)
    (halone : isWordEnd a.reverse b = false) (hends : isWordEnd (a.reverse ++ ['A']) b = true) :
    containsIgnoringCase ("A" ++ part ++ "") part ≠ true := by
  refine not_contains_of_sigmas (fun x y _ hhere => ?_) hpart ?_ halone rfl rfl
  · rw [← Bool.not_eq_true, isWordEnd_eq_true_iff] at hhere ⊢
    rintro ⟨hbefore, hafter⟩
    rw [List.append_nil] at hbefore
    exact hhere ⟨casedComesNext_append hbefore _, hafter⟩
  · show isWordEnd (a.reverse ++ ['A']) (b ++ []) ≠ false
    rw [List.append_nil, hends]
    exact nofun

/-- Before a letter with case a capital sigma ends no word, though it may end one in the part
    alone. A final sigma is missing then. -/
theorem not_contains_before_letter {part : String} (hpart : part.toList = a ++ 'Σ' :: b)
    (halone : isWordEnd a.reverse b = true) (hends : isWordEnd a.reverse (b ++ ['A']) = false) :
    containsIgnoringCase ("" ++ part ++ "A") part ≠ true := by
  refine not_contains_of_sigmas (fun x y _ hhere => ?_) hpart ?_ halone rfl rfl
  · rw [isWordEnd_eq_true_iff] at hhere ⊢
    refine ⟨hhere.1, ?_⟩
    rw [← Bool.not_eq_true]
    intro hnext
    rw [List.append_nil] at hnext
    exact Bool.false_ne_true (hhere.2.symm.trans (casedComesNext_append hnext _))
  · show isWordEnd (a.reverse ++ []) (b ++ ['A']) ≠ true
    rw [List.append_nil, hends]
    exact nofun

/-- **A part is found in every text around it, cases aside, exactly when its capital sigmas end
    words alike in all of them.** -/
theorem contains_everywhere_iff (part : String) :
    (∀ front back : String, containsIgnoringCase (front ++ part ++ back) part = true) ↔
      ∀ front back : String, EndsAlike front.toList part.toList back.toList := by
  constructor
  · intro h front back a b hpart
    cases halone : isWordEnd a.reverse b with
    | false =>
        rw [← Bool.not_eq_true, isWordEnd_eq_true_iff]
        rintro ⟨hbefore, hafter⟩
        refine not_contains_behind_letter hpart halone ?_ (h "A" "")
        refine isWordEnd_eq_true_iff.mpr ⟨casedComesNext_letter hbefore, ?_⟩
        rw [← Bool.not_eq_true]
        exact fun hnext => Bool.false_ne_true (hafter.symm.trans (casedComesNext_append hnext _))
    | true =>
        obtain ⟨hbefore, -⟩ := isWordEnd_eq_true_iff.mp halone
        refine isWordEnd_eq_true_iff.mpr ⟨casedComesNext_append hbefore _, ?_⟩
        rw [← Bool.not_eq_true]
        intro hnext
        refine not_contains_before_letter hpart halone ?_ (h "" "A")
        rw [← Bool.not_eq_true, isWordEnd_eq_true_iff, casedComesNext_letter hnext]
        exact fun hends => nomatch hends.2
  · exact fun h front back => contains_of_endsAlike (h front back)

end VaultQuery.Text
