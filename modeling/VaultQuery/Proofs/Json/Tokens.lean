import VaultQuery.Json.Printer
import VaultQuery.Json.Token
import VaultQuery.Proofs.Json.Numeral
import VaultQuery.Proofs.Json.Quoted

/-! # Reading printed pieces

    A printed text is a row of pieces, and the reader of tokens takes one piece after the
    other: blanks go by, punctuation and quoted texts are tokens wherever they stand, words and
    numbers are tokens when something follows that ends them.

    * `ofCharsFrom?_blanks`, `ofCharsFrom?_punctuation`, `ofCharsFrom?_quote`,
      `ofCharsFrom?_word`: one piece each;
    * `Reads`: a row of pieces, whatever stands around it;
    * `wordToken?_text`: a numeral is a word. -/

namespace VaultQuery.Json

open Text

variable {c : Char} {cs more word : List Char} {seen ts us : List Token} {t : Token}

/-- The text is over or goes on with something that ends a word. -/
def Delimited (cs : List Char) : Prop := ∀ c ∈ cs.head?, endsWord c = true

theorem delimited_nil : Delimited [] := fun _ h => nomatch h

theorem delimited_cons (h : endsWord c = true) (cs : List Char) : Delimited (c :: cs) := by
  intro x hx
  cases hx
  exact h

/-- The characters that end a word. -/
theorem mem_of_endsWord (h : endsWord c = true) :
    c ∈ [' ', '\t', '\n', '\r', '"', '[', ']', '\x7b', '\x7d', ',', ':'] := by
  rw [endsWord, Bool.or_eq_true, Bool.or_eq_true] at h
  rcases h with (h | h) | h
  · simp only [isSpace, Bool.or_eq_true, beq_iff_eq] at h
    rcases h with ((rfl | rfl) | rfl) | rfl <;> decide
  · rw [eq_of_beq h]
    decide
  · unfold punctuation? at h
    split at h
    all_goals first | decide | cases h

/-! ## Blanks and punctuation -/

namespace Token

theorem ofCharsFrom?_blanks {blanks : List Char} (h : ∀ c ∈ blanks, isSpace c = true) :
    ofCharsFrom? .between seen (blanks ++ cs) = ofCharsFrom? .between seen cs := by
  induction blanks with
  | nil => rfl
  | cons b blanks ih =>
      have hb : step? .between b = some ([], .between) := by
        rw [step?, startAt, if_pos (h b (List.mem_cons_self ..))]
      show ofCharsFrom? .between seen (b :: (blanks ++ cs)) = _
      rw [ofCharsFrom?, hb]
      exact ih fun c hc => h c (List.mem_cons_of_mem b hc)

theorem ofCharsFrom?_punctuation (h : punctuation? c = some t) :
    ofCharsFrom? .between seen (c :: cs) = ofCharsFrom? .between (t :: seen) cs := by
  have hstart : startAt c = ([t], .between) := by
    unfold punctuation? at h
    split at h
    all_goals cases h
    all_goals rfl
  rw [ofCharsFrom?, step?, hstart]
  rfl

/-! ## Quoted texts -/

/-- Between quotes most characters stand for themselves. -/
theorem ofCharsFrom?_quoted_plain (raw : List Char) (hquote : c ≠ '"') (hback : c ≠ '\\')
    (hcontrol : ¬ c.toNat < 0x20) :
    ofCharsFrom? (.quoted raw) seen (c :: cs) = ofCharsFrom? (.quoted (c :: raw)) seen cs := by
  rw [ofCharsFrom?, step?, if_neg hquote, if_neg hback, if_neg hcontrol]
  rfl

theorem ofCharsFrom?_quoted_hexDigit (raw : List Char) {n : Nat} (h : n < 16) :
    ofCharsFrom? (.quoted raw) seen (hexDigit n :: cs)
      = ofCharsFrom? (.quoted (hexDigit n :: raw)) seen cs := by
  have hall : ∀ m, m < 16 → hexDigit m ≠ '"' ∧ hexDigit m ≠ '\\' ∧ ¬ (hexDigit m).toNat < 0x20 := by
    decide
  obtain ⟨hquote, hback, hcontrol⟩ := hall n h
  exact ofCharsFrom?_quoted_plain raw hquote hback hcontrol

theorem ofCharsFrom?_quoted_escapeChar (raw : List Char) (c : Char) :
    ofCharsFrom? (.quoted raw) seen (escapeChar c ++ cs)
      = ofCharsFrom? (.quoted ((escapeChar c).reverse ++ raw)) seen cs := by
  rw [escapeChar]
  split
  · rfl
  rename_i hquote
  split
  · rfl
  rename_i hback
  iterate 5
    split
    · rfl
  split
  · rename_i hcontrol
    have hopen : ofCharsFrom? (.quoted raw) seen
        ('\\' :: 'u' :: '0' :: '0' :: hexDigit (c.toNat / 16) :: hexDigit (c.toNat % 16) :: cs)
        = ofCharsFrom? (.quoted ('0' :: '0' :: 'u' :: '\\' :: raw)) seen
            (hexDigit (c.toNat / 16) :: hexDigit (c.toNat % 16) :: cs) := rfl
    exact hopen.trans ((ofCharsFrom?_quoted_hexDigit _ (by omega)).trans
      (ofCharsFrom?_quoted_hexDigit _ (by omega)))
  · rename_i hcontrol
    exact ofCharsFrom?_quoted_plain raw hquote hback hcontrol

theorem ofCharsFrom?_quoted_escape (text raw : List Char) :
    ofCharsFrom? (.quoted raw) seen (escape text ++ cs)
      = ofCharsFrom? (.quoted ((escape text).reverse ++ raw)) seen cs := by
  induction text generalizing raw with
  | nil => rfl
  | cons c text ih =>
      have hsplit : escape (c :: text) = escapeChar c ++ escape text := List.flatMap_cons
      rw [hsplit, List.append_assoc, ofCharsFrom?_quoted_escapeChar, ih, List.reverse_append,
        List.append_assoc]

/-- A text in quotes is one token. -/
theorem ofCharsFrom?_quote (s : String) :
    ofCharsFrom? .between seen (quote s ++ cs)
      = ofCharsFrom? .between (.text (escape s.toList) :: seen) cs := by
  have hopen : ofCharsFrom? .between seen (quote s ++ cs)
      = ofCharsFrom? (.quoted []) seen (escape s.toList ++ '"' :: cs) := by
    rw [quote, List.cons_append, List.cons_append, List.append_assoc]
    rfl
  have hclose : step? (.quoted (escape s.toList).reverse) '"'
      = some ([.text (escape s.toList)], .between) := by
    rw [step?, if_pos rfl, List.reverse_reverse, wellEscaped_escape]
    rfl
  rw [hopen, ofCharsFrom?_quoted_escape, List.append_nil, ofCharsFrom?, hclose]
  rfl

/-! ## Words -/

theorem ofCharsFrom?_word_run (front : List Char) (h : ∀ c ∈ word, endsWord c = false) :
    ofCharsFrom? (.word front) seen (word ++ cs)
      = ofCharsFrom? (.word (word.reverse ++ front)) seen cs := by
  induction word generalizing front with
  | nil => rfl
  | cons c word ih =>
      have hc : endsWord c = false := h c (List.mem_cons_self ..)
      have hstep : step? (.word front) c = some ([], .word (c :: front)) := by
        rw [step?, hc]
        rfl
      show ofCharsFrom? (.word front) seen (c :: (word ++ cs)) = _
      rw [ofCharsFrom?, hstep]
      show ofCharsFrom? (.word (c :: front)) seen (word ++ cs) = _
      rw [ih _ fun x hx => h x (List.mem_cons_of_mem c hx), List.reverse_cons,
        List.append_assoc]
      rfl

/-- A word is one token if something ends it. -/
theorem ofCharsFrom?_word (ht : wordToken? word = some t) (hne : word ≠ [])
    (hword : ∀ c ∈ word, endsWord c = false) (hcs : Delimited cs) :
    ofCharsFrom? .between seen (word ++ cs) = ofCharsFrom? .between (t :: seen) cs := by
  -- the first character begins a word
  have hopen : ofCharsFrom? .between seen (word ++ cs)
      = ofCharsFrom? (.word word.reverse) seen cs := by
    cases word with
    | nil => exact absurd rfl hne
    | cons c word =>
        have hc : endsWord c = false := hword c (List.mem_cons_self ..)
        simp only [endsWord, Bool.or_eq_false_iff, beq_eq_false_iff_ne,
          Option.isSome_eq_false_iff, Option.isNone_iff_eq_none] at hc
        obtain ⟨⟨hspace, hquote⟩, hpunctuation⟩ := hc
        have hstart : step? .between c = some ([], .word [c]) := by
          rw [step?, startAt, hspace, if_neg Bool.false_ne_true, if_neg hquote, hpunctuation]
        show ofCharsFrom? .between seen (c :: (word ++ cs)) = _
        rw [ofCharsFrom?, hstart, List.reverse_cons]
        exact ofCharsFrom?_word_run [c] fun x hx => hword x (List.mem_cons_of_mem c hx)
  rw [hopen]
  cases cs with
  | nil =>
      rw [ofCharsFrom?, finish?, List.reverse_reverse, ht, ofCharsFrom?, finish?]
      simp
  | cons c cs =>
      have hc : endsWord c = true := hcs c rfl
      rw [ofCharsFrom?, step?, if_pos hc, List.reverse_reverse, ht, ofCharsFrom?, step?]
      simp

/-! ## Rows of pieces -/

/-- Between tokens the characters are read as the tokens, wherever something follows that ends
    a word. -/
def Reads (cs : List Char) (ts : List Token) : Prop :=
  ∀ (seen : List Token) (rest : List Char), Delimited rest →
    ofCharsFrom? .between seen (cs ++ rest) = ofCharsFrom? .between (ts.reverse ++ seen) rest

/-- A word that stands before the characters is ended by them or by what follows them. -/
def Delimits (cs : List Char) : Prop := ∀ rest, Delimited rest → Delimited (cs ++ rest)

theorem delimits_nil : Delimits [] := fun _ h => h

theorem delimits_cons (h : endsWord c = true) (cs : List Char) : Delimits (c :: cs) :=
  fun rest _ => delimited_cons h (cs ++ rest)

theorem Delimits.append (h : Delimits cs) (h' : Delimits more) : Delimits (cs ++ more) := by
  intro rest hrest
  rw [List.append_assoc]
  exact h _ (h' rest hrest)

theorem reads_nil : Reads [] [] := fun _ _ _ => rfl

/-- The pieces of a row are read one after the other. -/
theorem Reads.append (h : Reads cs ts) (h' : Reads more us) (hmore : Delimits more) :
    Reads (cs ++ more) (ts ++ us) := by
  intro seen rest hrest
  rw [List.append_assoc, h seen _ (hmore rest hrest), h' _ rest hrest, List.reverse_append,
    List.append_assoc]

theorem Reads.punctuation (ht : punctuation? c = some t) (h : Reads cs ts) :
    Reads (c :: cs) (t :: ts) := by
  intro seen rest hrest
  rw [List.cons_append, ofCharsFrom?_punctuation ht, h _ rest hrest, List.reverse_cons,
    List.append_assoc]
  rfl

theorem delimits_newLine (level : Nat) (cs : List Char) : Delimits (newLine level ++ cs) :=
  delimits_cons rfl _

theorem Reads.blanks {blanks : List Char} (hblanks : ∀ c ∈ blanks, isSpace c = true)
    (h : Reads cs ts) : Reads (blanks ++ cs) ts := by
  intro seen rest hrest
  rw [List.append_assoc, ofCharsFrom?_blanks hblanks, h _ rest hrest]

theorem Reads.newLine (level : Nat) (h : Reads cs ts) : Reads (newLine level ++ cs) ts := by
  refine .blanks (fun c hc => ?_) h
  rcases List.mem_cons.mp hc with rfl | hc
  · rfl
  · rw [List.eq_of_mem_replicate hc]
    rfl

theorem Reads.quote (s : String) (h : Reads cs ts) :
    Reads (quote s ++ cs) (.text (escape s.toList) :: ts) := by
  intro seen rest hrest
  rw [List.append_assoc, ofCharsFrom?_quote, h _ rest hrest, List.reverse_cons, List.append_assoc]
  rfl

/-- What is read as tokens, and nothing follows, consists of them. -/
theorem Reads.ofChars? (h : Reads cs ts) : ofChars? cs = some ts := by
  have hall := h [] [] delimited_nil
  rw [List.append_nil, List.append_nil] at hall
  rw [Token.ofChars?, hall, ofCharsFrom?, finish?]
  simp

end Token

/-! ## Numerals -/

theorem endsWord_eq_false_of_isDigit (h : isDigit c = true) : endsWord c = false := by
  rw [← Bool.not_eq_true]
  intro hends
  have hno : [' ', '\t', '\n', '\r', '"', '[', ']', '\x7b', '\x7d', ',', ':'].all
      (fun x => !isDigit x) = true := by decide
  have hc := List.all_eq_true.mp hno c (mem_of_endsWord hends)
  rw [h] at hc
  exact nomatch hc

/-- No character of a proper numeral ends a word. -/
theorem endsWord_of_mem_text {n : Numeral} (h : n.Proper) (hc : c ∈ n.text) :
    endsWord c = false := by
  have hunsigned : ∀ x ∈ n.unsignedText, endsWord x = false := by
    intro x hx
    rw [Numeral.unsignedText, List.mem_append, List.mem_append] at hx
    rcases hx with (hx | hx) | hx
    · exact endsWord_eq_false_of_isDigit (h.isDigit_whole x hx)
    · rw [Numeral.fractionText] at hx
      split at hx
      · cases hx
      · rcases List.mem_cons.mp hx with rfl | hx
        · rfl
        · exact endsWord_eq_false_of_isDigit (h.isDigit_fraction x hx)
    · cases he : n.exponent with
      | none =>
          rw [he] at hx
          cases hx
      | some e =>
          rw [he, Numeral.exponentText, List.mem_cons, List.mem_cons] at hx
          rcases hx with rfl | rfl | hx
          · rfl
          · split <;> rfl
          · exact endsWord_eq_false_of_isDigit (isDigit_of_mem_toDigits hx)
  rw [Numeral.text] at hc
  split at hc
  · rcases List.mem_cons.mp hc with rfl | hc
    · rfl
    · exact hunsigned c hc
  · exact hunsigned c hc

/-- A numeral is a word, and no other word. -/
theorem wordToken?_text {n : Numeral} (h : n.Proper) : wordToken? n.text = some (.number n) := by
  have hread := Numeral.read?_text h
  have hother : ∀ word : String, Numeral.read? word.toList = none → n.text ≠ word.toList := by
    intro word hword heq
    rw [heq, hword] at hread
    exact nomatch hread
  rw [wordToken?, if_neg (hother "null" rfl), if_neg (hother "true" rfl),
    if_neg (hother "false" rfl), hread]
  rfl

theorem text_ne_nil {n : Numeral} (h : n.Proper) : n.text ≠ [] := by
  intro hnil
  have hread := Numeral.read?_text h
  rw [hnil] at hread
  exact nomatch hread

end VaultQuery.Json
