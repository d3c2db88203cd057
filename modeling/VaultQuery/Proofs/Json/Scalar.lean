import VaultQuery.Proofs.Json.Tree
import VaultQuery.Proofs.Number.Spelled
import VaultQuery.Value.Basic

/-! # JSON texts that are one word

    The tokens of a tree are read as that tree, and nothing else is. So a text that means a
    number or a truth value is a single token, and the characters of that token stand in it with
    nothing but blanks around them.

    * `ofTokens?_eq_some_iff`: the tokens that are read as a tree are its own;
    * `Token.exists_word_of_ofChars?`: a text of one word is that word between blanks;
    * `Json.readBool?_of_read?`, `Json.exists_numeral_of_read?`: truth values and numbers. -/

namespace VaultQuery

open Text

namespace Json

/-! ## The tokens of a tree -/

namespace Written

theorem itemTokens_concat (ws : List Written) (w : Written) :
    itemTokens (ws ++ [w]) = itemTokens ws ++ .comma :: w.tokens := by
  induction ws with
  | nil => simp [itemTokens]
  | cons x ws ih => simp [itemTokens, ih]

theorem memberTokens_concat (ws : List (List Char × Written)) (key : List Char) (w : Written) :
    memberTokens (ws ++ [(key, w)])
      = memberTokens ws ++ .comma :: .text key :: .colon :: w.tokens := by
  induction ws with
  | nil => simp [memberTokens]
  | cons x ws ih => simp [memberTokens, ih]

/-- The tokens of an open array up to the place of the next item. -/
def openItems : List Written → List Token
  | [] => [.leftBracket]
  | w :: ws => .leftBracket :: w.tokens ++ itemTokens ws ++ [.comma]

/-- The tokens of an open object up to the place of the next member. -/
def openMembers : List (List Char × Written) → List Token
  | [] => [.leftBrace]
  | (key, w) :: ws =>
      .leftBrace :: .text key :: .colon :: w.tokens ++ memberTokens ws ++ [.comma]

theorem openItems_concat (ws : List Written) (w : Written) :
    openItems (ws ++ [w]) = openItems ws ++ w.tokens ++ [.comma] := by
  cases ws with
  | nil => simp [openItems, itemTokens]
  | cons x ws => simp [openItems, itemTokens_concat]

theorem tokens_array_concat (ws : List Written) (w : Written) :
    (array (ws ++ [w])).tokens = openItems ws ++ w.tokens ++ [.rightBracket] := by
  cases ws with
  | nil => simp [openItems, itemTokens, tokens]
  | cons x ws => simp [openItems, itemTokens_concat, tokens]

theorem openMembers_concat (ws : List (List Char × Written)) (key : List Char) (w : Written) :
    openMembers (ws ++ [(key, w)])
      = openMembers ws ++ .text key :: .colon :: w.tokens ++ [.comma] := by
  cases ws with
  | nil => simp [openMembers, memberTokens]
  | cons x ws => simp [openMembers, memberTokens_concat]

theorem tokens_object_concat (ws : List (List Char × Written)) (key : List Char) (w : Written) :
    (object (ws ++ [(key, w)])).tokens
      = openMembers ws ++ .text key :: .colon :: w.tokens ++ [.rightBrace] := by
  cases ws with
  | nil => simp [openMembers, memberTokens, tokens]
  | cons x ws => simp [openMembers, memberTokens_concat, tokens]

end Written

/-- The tokens of a frame up to the place of the next value. -/
def Frame.tokens : Frame → List Token
  | .items seen => Written.openItems seen.reverse
  | .members seen key => Written.openMembers seen.reverse ++ [.text key, .colon]

/-- The tokens of open frames, the outermost first. -/
def stackTokens : List Frame → List Token
  | [] => []
  | f :: fs => stackTokens fs ++ f.tokens

mutual

/-- What is read with open frames has their tokens in front. -/
theorem tokens_of_valueNext? (stack : List Frame) (ts : List Token) (r : Written)
    (h : valueNext? stack ts = some r) : stackTokens stack ++ ts = r.tokens := by
  rw [valueNext?.eq_def] at h
  split at h
  · exact tokens_of_closed? stack .null _ r h
  · exact tokens_of_closed? stack (.bool _) _ r h
  · exact tokens_of_closed? stack (.number _) _ r h
  · exact tokens_of_closed? stack (.text _) _ r h
  · exact tokens_of_closed? stack (.array []) _ r h
  · rw [← tokens_of_valueNext? _ _ r h, stackTokens, List.append_assoc]
    rfl
  · exact tokens_of_closed? stack (.object []) _ r h
  · rw [← tokens_of_valueNext? _ _ r h, stackTokens, List.append_assoc]
    rfl
  · cases h
termination_by ts.length

theorem tokens_of_closed? (stack : List Frame) (w : Written) (ts : List Token) (r : Written)
    (h : closed? stack w ts = some r) : stackTokens stack ++ (w.tokens ++ ts) = r.tokens := by
  rw [closed?.eq_def] at h
  split at h
  · split at h
    · cases h
      rw [stackTokens, List.nil_append, List.append_nil]
    · cases h
  -- a comma before what may be a key, and any other comma
  · split at h
    · rw [← tokens_of_valueNext? _ _ r h]
      simp [stackTokens, Frame.tokens, Written.openMembers_concat]
    · rw [← tokens_of_valueNext? _ _ r h]
      simp [stackTokens, Frame.tokens, Written.openItems_concat]
    · cases h
  · split at h
    · rw [← tokens_of_valueNext? _ _ r h]
      simp [stackTokens, Frame.tokens, Written.openItems_concat]
    · cases h
  · split at h
    · rw [← tokens_of_closed? _ _ _ r h]
      simp [stackTokens, Frame.tokens, Written.tokens_array_concat]
    · cases h
  · split at h
    · rw [← tokens_of_closed? _ _ _ r h]
      simp [stackTokens, Frame.tokens, Written.tokens_object_concat]
    · cases h
  · cases h
termination_by ts.length

end

/-- **The tokens that are read as a tree are its own.** -/
theorem ofTokens?_eq_some_iff {ts : List Token} {w : Written} :
    Written.ofTokens? ts = some w ↔ ts = w.tokens := by
  constructor
  · exact tokens_of_valueNext? [] ts w
  · rintro rfl
    exact ofTokens?_tokens w

/-! ## The characters of a word -/

namespace Token

variable {mode : Mode} {seen ts : List Token} {cs front : List Char} {t : Token}

/-- Tokens that have been read stay. -/
theorem exists_more (h : ofCharsFrom? mode seen cs = some ts) :
    ∃ more, ts = seen.reverse ++ more := by
  induction cs generalizing mode seen with
  | nil =>
      rw [ofCharsFrom?] at h
      obtain ⟨more, -, hmore⟩ := Option.map_eq_some_iff.mp h
      exact ⟨more, hmore.symm⟩
  | cons c cs ih =>
      rw [ofCharsFrom?] at h
      split at h
      · obtain ⟨more, hmore⟩ := ih h
        rw [List.reverse_append, List.reverse_reverse, List.append_assoc] at hmore
        exact ⟨_, hmore⟩
      · cases h

/-- Quotes that have been opened end in a quoted text. -/
theorem exists_text_of_quoted {raw : List Char}
    (hmode : mode = .quoted raw ∨ mode = .escaped raw)
    (h : ofCharsFrom? mode seen cs = some ts) :
    ∃ text more, ts = seen.reverse ++ .text text :: more := by
  induction cs generalizing mode raw with
  | nil => rcases hmode with rfl | rfl <;> cases h
  | cons c cs ih =>
      rw [ofCharsFrom?] at h
      split at h
      · rename_i ended mode' hstep
        rcases hmode with rfl | rfl
        · rw [step?] at hstep
          split at hstep
          · split at hstep
            · cases hstep
              obtain ⟨more, hmore⟩ := exists_more h
              exact ⟨raw.reverse, more, by simpa using hmore⟩
            · cases hstep
          · split at hstep
            · cases hstep
              exact ih (Or.inr rfl) h
            · split at hstep
              · cases hstep
              · cases hstep
                exact ih (Or.inl rfl) h
        · rw [step?] at hstep
          split at hstep
          · cases hstep
          · cases hstep
            exact ih (Or.inl rfl) h
      · cases h

/-- A word that has been begun ends in its token, where the rest is read from. -/
theorem exists_run_of_word (h : ofCharsFrom? (.word front) seen cs = some ts) :
    ∃ run rest t, cs = run ++ rest ∧ wordToken? (front.reverse ++ run) = some t ∧
      ofCharsFrom? .between (t :: seen) rest = some ts := by
  induction cs generalizing front with
  | nil =>
      rw [ofCharsFrom?, finish?, Option.map_map] at h
      obtain ⟨t, ht, hts⟩ := Option.map_eq_some_iff.mp h
      refine ⟨[], [], t, rfl, by rw [List.append_nil, ht], ?_⟩
      rw [← hts, ofCharsFrom?, finish?]
      simp
  | cons c cs ih =>
      rw [ofCharsFrom?, step?] at h
      by_cases hc : endsWord c = true
      · rw [if_pos hc] at h
        cases ht : wordToken? front.reverse with
        | none =>
            rw [ht] at h
            cases h
        | some t =>
            refine ⟨[], c :: cs, t, rfl, by rw [List.append_nil, ht], ?_⟩
            rw [ht] at h
            rw [ofCharsFrom?, step?, ← h]
            simp
      · rw [if_neg hc] at h
        obtain ⟨run, rest, t, hsplit, ht, hrest⟩ := ih h
        refine ⟨c :: run, rest, t, by rw [hsplit, List.cons_append], ?_, hrest⟩
        rw [← ht, List.reverse_cons, List.append_assoc]
        rfl

theorem ofCharsFrom?_between (c : Char) (cs : List Char) :
    ofCharsFrom? .between seen (c :: cs)
      = ofCharsFrom? (startAt c).2 ((startAt c).1.reverse ++ seen) cs := rfl

/-- Between tokens a character that is not blank begins one: a text, punctuation, or a word. -/
theorem exists_token_of_between {c : Char} (hspace : isSpace c = false)
    (h : ofCharsFrom? .between seen (c :: cs) = some ts) :
    ∃ t more, ts = seen.reverse ++ t :: more ∧
      ((∃ raw, t = .text raw) ∨ punctuation? c = some t ∨
        ∃ run rest, c :: cs = run ++ rest ∧ wordToken? run = some t ∧
          ofCharsFrom? .between (t :: seen) rest = some ts) := by
  rw [ofCharsFrom?_between, startAt, hspace, if_neg Bool.false_ne_true] at h
  by_cases hquote : c = '"'
  · rw [if_pos hquote] at h
    obtain ⟨raw, more, hmore⟩ := exists_text_of_quoted (Or.inl rfl) h
    exact ⟨.text raw, more, hmore, Or.inl ⟨raw, rfl⟩⟩
  · rw [if_neg hquote] at h
    cases hpunctuation : punctuation? c with
    | some t =>
        rw [hpunctuation] at h
        obtain ⟨more, hmore⟩ := exists_more h
        refine ⟨t, more, ?_, Or.inr (Or.inl rfl)⟩
        rw [hmore]
        simp
    | none =>
        rw [hpunctuation] at h
        obtain ⟨run, rest, t, hsplit, ht, hrest⟩ := exists_run_of_word h
        obtain ⟨more, hmore⟩ := exists_more hrest
        refine ⟨t, more, ?_, Or.inr (Or.inr ⟨c :: run, rest, ?_, ht, hrest⟩)⟩
        · rw [hmore, List.reverse_cons, List.append_assoc]
          rfl
        · rw [hsplit, List.cons_append]

/-- Where no token begins there are only blanks. -/
theorem isSpace_of_ofCharsFrom? (h : ofCharsFrom? .between seen cs = some seen.reverse) :
    ∀ c ∈ cs, isSpace c = true := by
  induction cs with
  | nil => exact List.forall_mem_nil _
  | cons c cs ih =>
      cases hspace : isSpace c with
      | true =>
          rw [ofCharsFrom?_between, startAt, hspace, if_pos rfl] at h
          exact List.forall_mem_cons.mpr ⟨hspace, ih h⟩
      | false =>
          obtain ⟨t, more, hmore, -⟩ := exists_token_of_between hspace h
          have hnil := List.append_cancel_left ((List.append_nil _).trans hmore)
          cases hnil

/-- **A text of one word is that word between blanks.** -/
theorem exists_word_of_ofChars? (h : ofChars? cs = some [t]) (htext : ∀ raw, t ≠ .text raw)
    (hpunctuation : ∀ c, punctuation? c ≠ some t) :
    ∃ before word after, cs = before ++ (word ++ after) ∧ (∀ c ∈ before, isSpace c = true) ∧
      (∀ c ∈ after, isSpace c = true) ∧ wordToken? word = some t := by
  rw [ofChars?] at h
  induction cs with
  | nil => cases h
  | cons c cs ih =>
      cases hspace : isSpace c with
      | true =>
          rw [ofCharsFrom?_between, startAt, hspace, if_pos rfl] at h
          obtain ⟨before, word, after, hsplit, hbefore, hafter, hword⟩ := ih h
          exact ⟨c :: before, word, after, by rw [hsplit, List.cons_append],
            List.forall_mem_cons.mpr ⟨hspace, hbefore⟩, hafter, hword⟩
      | false =>
          obtain ⟨t', more, hmore, hcases⟩ := exists_token_of_between hspace h
          obtain ⟨rfl, -⟩ := List.cons.inj hmore
          rcases hcases with ⟨raw, hraw⟩ | hpunct | ⟨run, rest, hsplit, hword, hrest⟩
          · exact absurd hraw (htext raw)
          · exact absurd hpunct (hpunctuation c)
          · exact ⟨[], run, rest, hsplit, List.forall_mem_nil _,
              isSpace_of_ofCharsFrom? hrest, hword⟩

end Token

theorem isBlank_of_isSpace {c : Char} (h : isSpace c = true) : isBlank c = true := by
  simp only [isSpace, Bool.or_eq_true, beq_iff_eq] at h
  rcases h with ((rfl | rfl) | rfl) | rfl <;> rfl

/-! ## Truth values and numbers -/

theorem eq_boolText_of_wordToken? {word : List Char} {b : Bool}
    (h : wordToken? word = some (.bool b)) : word = (Value.boolText b).toList := by
  rw [wordToken?] at h
  split at h
  · cases h
  · split at h
    · rename_i htrue
      cases h
      exact htrue
    · split at h
      · rename_i hfalse
        cases h
        exact hfalse
      · obtain ⟨n, -, hn⟩ := Option.map_eq_some_iff.mp h
        cases hn

theorem read?_of_wordToken? {word : List Char} {n : Numeral}
    (h : wordToken? word = some (.number n)) : Numeral.read? word = some n := by
  rw [wordToken?] at h
  split at h
  · cases h
  · split at h
    · cases h
    · split at h
      · cases h
      · obtain ⟨m, hm, hn⟩ := Option.map_eq_some_iff.mp h
        cases hn
        exact hm

/-- A word that is a number or a truth value has no blanks at its edges. -/
theorem trimmed_of_wordToken? {word : List Char} {t : Token} (h : wordToken? word = some t)
    (ht : (∃ b, t = .bool b) ∨ ∃ n, t = .number n) : Trimmed word := by
  rcases ht with ⟨b, rfl⟩ | ⟨n, rfl⟩
  · rw [eq_boolText_of_wordToken? h]
    cases b <;> exact trimmed_of_all (by decide)
  · exact trimmed_of_forall
      (Decimal.noBlank_of_read? (Numeral.read?_decimal (read?_of_wordToken? h)))

/-- A text that is read as a number or a truth value is, blanks at its edges aside, its word. -/
theorem wordToken?_of_read? {cs : List Char} {w : Written} {t : Token}
    (h : Written.read? cs = some w) (hw : w.tokens = [t])
    (ht : (∃ b, t = .bool b) ∨ ∃ n, t = .number n) : wordToken? (trimChars cs) = some t := by
  obtain ⟨ts, hts, htree⟩ := Option.bind_eq_some_iff.mp h
  rw [ofTokens?_eq_some_iff.mp htree, hw] at hts
  have htext : ∀ raw, t ≠ .text raw := by
    rintro raw rfl
    rcases ht with ⟨b, hb⟩ | ⟨n, hn⟩
    · cases hb
    · cases hn
  have hpunctuation : ∀ c, punctuation? c ≠ some t := by
    intro c hc
    rw [punctuation?.eq_def] at hc
    rcases ht with ⟨b, rfl⟩ | ⟨n, rfl⟩
    · split at hc <;> cases hc
    · split at hc <;> cases hc
  obtain ⟨before, word, after, rfl, hbefore, hafter, hword⟩ :=
    Token.exists_word_of_ofChars? hts htext hpunctuation
  rw [trimChars_blanks (fun c hc => isBlank_of_isSpace (hbefore c hc))
    (fun c hc => isBlank_of_isSpace (hafter c hc)) (trimmed_of_wordToken? hword ht)]
  exact hword

/-- Only a written truth value means one. -/
theorem eq_bool_of_ofWritten? {limit : Nat} {w : Written} {b : Bool}
    (h : ofWritten? limit w = some (.bool b)) : w = .bool b := by
  cases w with
  | bool c =>
      rw [ofWritten?] at h
      cases h
      rfl
  | number n =>
      obtain ⟨m, -, hj⟩ := Option.map_eq_some_iff.mp h
      cases m <;> cases hj
  | _ => simp [ofWritten?] at h

/-- Only a written number means one. -/
theorem exists_number_of_ofWritten? {limit : Nat} {w : Written} {m : Number}
    (h : ofWritten? limit w = some (ofNumber m)) : ∃ n, w = .number n ∧ n.number? = some m := by
  cases w with
  | number n =>
      obtain ⟨m', hm', hj⟩ := Option.map_eq_some_iff.mp h
      refine ⟨n, rfl, ?_⟩
      cases m <;> cases m' <;> cases hj <;> exact hm'
  | _ => cases m <;> simp [ofWritten?, ofNumber] at h

/-- **What JSON takes for a truth value spells it.** -/
theorem readBool?_of_read? {s : String} {b : Bool} (h : read? s = some (.bool b)) :
    readBool? s = some b := by
  obtain ⟨w, hread, hmeaning⟩ := Option.bind_eq_some_iff.mp h
  rw [eq_bool_of_ofWritten? hmeaning] at hread
  have hword := wordToken?_of_read? hread (by rw [Written.tokens]) (Or.inl ⟨b, rfl⟩)
  simp only [readBool?, eq_boolText_of_wordToken? hword]
  cases b <;> decide

/-- **What JSON takes for a number is a numeral**, blanks at its edges aside. -/
theorem exists_numeral_of_read? {s : String} {m : Number} (h : read? s = some (ofNumber m)) :
    ∃ n, Numeral.read? (trimChars s.toList) = some n ∧ n.number? = some m := by
  obtain ⟨w, hread, hmeaning⟩ := Option.bind_eq_some_iff.mp h
  obtain ⟨n, rfl, hn⟩ := exists_number_of_ofWritten? hmeaning
  have hword := wordToken?_of_read? hread (by rw [Written.tokens]) (Or.inr ⟨n, rfl⟩)
  exact ⟨n, read?_of_wordToken? hword, hn⟩

end Json
end VaultQuery
