import VaultQuery.Json.Written
import VaultQuery.Proofs.Json.Tokens

/-! # Printed values are read as they were printed

    A value is printed as a tree, with texts escaped and numbers as numerals; the reader finds
    that same tree, whatever the value. What the tree means is asked afterwards.

    * `Json.written`: the tree of a value;
    * `Token.reads_pretty`, `Token.reads_compact`: the tokens of a printed value, over several
      lines and on one;
    * `valueNext?_tokens`: the tree of these tokens;
    * `Written.read?_pretty`, `Written.read?_compact`: both. -/

namespace VaultQuery

/-! ## Trees and tokens -/

namespace Json

mutual

/-- The tree a value is written as; numbers that are not finite become `null`. -/
def written : Json → Written
  | .null => .null
  | .bool b => .bool b
  | .integer n => .number (Numeral.ofInt n)
  | .real d => if d.isFinite then .number (Numeral.ofDouble d) else .null
  | .text s => .text (escape s.toList)
  | .array items => .array (writtenItems items)
  | .object members => .object (writtenMembers members)

/-- The trees of items. -/
def writtenItems : List Json → List Written
  | [] => []
  | j :: js => j.written :: writtenItems js

/-- The trees of members. -/
def writtenMembers : List (String × Json) → List (List Char × Written)
  | [] => []
  | (key, j) :: js => (escape key.toList, j.written) :: writtenMembers js

end

namespace Written

mutual

/-- The tokens of a tree. -/
def tokens : Written → List Token
  | .null => [.null]
  | .bool b => [.bool b]
  | .number n => [.number n]
  | .text raw => [.text raw]
  | .array [] => [.leftBracket, .rightBracket]
  | .array (w :: ws) => .leftBracket :: w.tokens ++ itemTokens ws ++ [.rightBracket]
  | .object [] => [.leftBrace, .rightBrace]
  | .object ((key, w) :: ws) =>
      .leftBrace :: .text key :: .colon :: w.tokens ++ memberTokens ws ++ [.rightBrace]

/-- The tokens of items with a comma before each. -/
def itemTokens : List Written → List Token
  | [] => []
  | w :: ws => .comma :: w.tokens ++ itemTokens ws

/-- The tokens of members with a comma before each. -/
def memberTokens : List (List Char × Written) → List Token
  | [] => []
  | (key, w) :: ws => .comma :: .text key :: .colon :: w.tokens ++ memberTokens ws

end

end Written

/-! ## From characters to tokens -/

variable {cs : List Char} {seen : List Token}

namespace Token

/-- A constant is one token. -/
theorem reads_constant {word : String} {t : Token} (ht : wordToken? word.toList = some t)
    (hne : word.toList ≠ []) (hword : word.toList.all (fun c => !endsWord c) = true) :
    Reads word.toList [t] := by
  intro seen rest hrest
  refine ofCharsFrom?_word ht hne (fun c hc => ?_) hrest
  have hnot := List.all_eq_true.mp hword c hc
  rwa [Bool.not_eq_true'] at hnot

/-- A numeral is one token. -/
theorem reads_numeral {n : Numeral} (hn : n.Proper) : Reads n.text [.number n] := by
  intro seen rest hrest
  exact ofCharsFrom?_word (wordToken?_text hn) (text_ne_nil hn)
    (fun _ => endsWord_of_mem_text hn) hrest

/-! ### Values without parts are one token -/

theorem reads_null : Reads (scalarText .null) [.null] :=
  reads_constant rfl (by decide) (by decide)

theorem reads_bool (b : Bool) : Reads (scalarText (.bool b)) [.bool b] := by
  cases b with
  | true => exact reads_constant rfl (by decide) (by decide)
  | false => exact reads_constant rfl (by decide) (by decide)

theorem reads_integer (n : Int) : Reads (scalarText (.integer n)) [.number (Numeral.ofInt n)] := by
  have htext : integerText n = (Numeral.ofInt n).text := by
    rw [integerText, Numeral.text, Numeral.ofInt]
    by_cases hneg : n < 0
    · simp [hneg, Numeral.unsignedText, Numeral.fractionText, Numeral.exponentText]
    · simp [hneg, Numeral.unsignedText, Numeral.fractionText, Numeral.exponentText]
  rw [scalarText, htext]
  exact reads_numeral (Numeral.proper_ofInt n)

theorem reads_real (d : Double) : Reads (scalarText (.real d)) (Json.real d).written.tokens := by
  rw [written, scalarText]
  by_cases hd : d.isFinite = true
  · rw [if_pos hd, Numeral.write_json hd, String.toList_ofList]
    exact reads_numeral (Numeral.proper_ofDouble d)
  · rw [if_neg hd, Numeral.write_json_of_not_isFinite hd]
    exact reads_null

theorem reads_text (s : String) : Reads (scalarText (.text s)) [.text (escape s.toList)] :=
  fun _ _ _ => ofCharsFrom?_quote s

/-! ### Values over several lines -/

theorem delimits_prettyItems (level : Nat) (js : List Json) : Delimits (prettyItems level js) := by
  cases js with
  | nil => exact delimits_nil
  | cons j js => exact delimits_cons rfl _

theorem delimits_prettyMembers (level : Nat) (js : List (String × Json)) :
    Delimits (prettyMembers level js) := by
  cases js with
  | nil => exact delimits_nil
  | cons j js => exact delimits_cons rfl _

/-- A key and what it has for a value on the same line. -/
theorem Reads.member (key : String) {ts : List Token} (h : Reads cs ts) :
    Reads (Json.quote key ++ (": ".toList ++ cs)) (.text (escape key.toList) :: .colon :: ts) := by
  have hspace : ∀ c ∈ [' '], isSpace c = true := by
    intro c hc
    rw [List.mem_singleton.mp hc]
    rfl
  exact .quote key (.punctuation rfl (.blanks hspace h))

mutual

/-- **The tokens of a printed value are those of its tree**, wherever it stands. -/
theorem reads_pretty : ∀ (j : Json) (level : Nat), Reads (prettyText level j) j.written.tokens
  | .null, _ => reads_null
  | .bool b, _ => reads_bool b
  | .integer n, _ => reads_integer n
  | .real d, _ => reads_real d
  | .text s, _ => reads_text s
  | .array [], _ => .punctuation rfl (.punctuation rfl reads_nil)
  | .array (j :: js), level => by
      have hj := reads_pretty j (level + 1)
      have hjs := reads_prettyItems js (level + 1)
      have hclose : Reads (newLine level ++ [']']) [.rightBracket] :=
        .newLine level (.punctuation rfl reads_nil)
      have hmore := hjs.append hclose (delimits_newLine level _)
      rw [prettyText, written, writtenItems, Written.tokens]
      simp only [List.append_assoc, List.cons_append]
      -- the first item is ended by a comma, or by the line break before the bracket
      exact .punctuation rfl (.newLine _ (hj.append hmore
        ((delimits_prettyItems _ js).append (delimits_newLine level _))))
  | .object [], _ => .punctuation rfl (.punctuation rfl reads_nil)
  | .object ((key, j) :: js), level => by
      have hj := reads_pretty j (level + 1)
      have hjs := reads_prettyMembers js (level + 1)
      have hclose : Reads (newLine level ++ ['\x7d']) [.rightBrace] :=
        .newLine level (.punctuation rfl reads_nil)
      have hmore := hjs.append hclose (delimits_newLine level _)
      rw [prettyText, written, writtenMembers, Written.tokens]
      simp only [List.append_assoc, List.cons_append]
      exact .punctuation rfl (.newLine _ (.member key (hj.append hmore
        ((delimits_prettyMembers _ js).append (delimits_newLine level _)))))

theorem reads_prettyItems : ∀ (js : List Json) (level : Nat),
    Reads (prettyItems level js) (Written.itemTokens (writtenItems js))
  | [], _ => reads_nil
  | j :: js, level => by
      have hj := reads_pretty j level
      have hjs := reads_prettyItems js level
      rw [prettyItems, writtenItems, Written.itemTokens]
      simp only [List.append_assoc, List.cons_append]
      exact .punctuation rfl (.newLine _ (hj.append hjs (delimits_prettyItems level js)))

theorem reads_prettyMembers : ∀ (js : List (String × Json)) (level : Nat),
    Reads (prettyMembers level js) (Written.memberTokens (writtenMembers js))
  | [], _ => reads_nil
  | (key, j) :: js, level => by
      have hj := reads_pretty j level
      have hjs := reads_prettyMembers js level
      rw [prettyMembers, writtenMembers, Written.memberTokens]
      simp only [List.append_assoc, List.cons_append]
      exact .punctuation rfl (.newLine _ (.member key
        (hj.append hjs (delimits_prettyMembers level js))))

end

/-! ### Values on one line -/

theorem delimits_compactMoreItems (js : List Json) : Delimits (compactMoreItems js) := by
  cases js with
  | nil => exact delimits_nil
  | cons j js => exact delimits_cons rfl _

theorem delimits_compactMoreMembers (js : List (String × Json)) :
    Delimits (compactMoreMembers js) := by
  cases js with
  | nil => exact delimits_nil
  | cons j js => exact delimits_cons rfl _

mutual

/-- **The same on one line.** -/
theorem reads_compact : ∀ j : Json, Reads (compactText j) j.written.tokens
  | .null => reads_null
  | .bool b => reads_bool b
  | .integer n => reads_integer n
  | .real d => reads_real d
  | .text s => reads_text s
  | .array [] => .punctuation rfl (.punctuation rfl reads_nil)
  | .array (j :: js) => by
      have hj := reads_compact j
      have hjs := reads_compactMoreItems js
      have hclose : Reads [']'] [.rightBracket] := .punctuation rfl reads_nil
      have hdelimits : Delimits [']'] := delimits_cons rfl []
      rw [compactText, compactItems, written, writtenItems, Written.tokens]
      simp only [List.append_assoc, List.cons_append]
      -- here it is ended by a comma, or by the bracket itself
      exact .punctuation rfl (hj.append (hjs.append hclose hdelimits)
        ((delimits_compactMoreItems js).append hdelimits))
  | .object [] => .punctuation rfl (.punctuation rfl reads_nil)
  | .object ((key, j) :: js) => by
      have hj := reads_compact j
      have hjs := reads_compactMoreMembers js
      have hclose : Reads ['\x7d'] [.rightBrace] := .punctuation rfl reads_nil
      have hdelimits : Delimits ['\x7d'] := delimits_cons rfl []
      rw [compactText, compactMembers, written, writtenMembers, Written.tokens]
      simp only [List.append_assoc, List.cons_append]
      exact .punctuation rfl (.quote key (.punctuation rfl (hj.append
        (hjs.append hclose hdelimits) ((delimits_compactMoreMembers js).append hdelimits))))

theorem reads_compactMoreItems : ∀ js : List Json,
    Reads (compactMoreItems js) (Written.itemTokens (writtenItems js))
  | [] => reads_nil
  | j :: js => by
      have hj := reads_compact j
      have hjs := reads_compactMoreItems js
      rw [compactMoreItems, writtenItems, Written.itemTokens]
      exact .punctuation rfl (hj.append hjs (delimits_compactMoreItems js))

theorem reads_compactMoreMembers : ∀ js : List (String × Json),
    Reads (compactMoreMembers js) (Written.memberTokens (writtenMembers js))
  | [] => reads_nil
  | (key, j) :: js => by
      have hj := reads_compact j
      have hjs := reads_compactMoreMembers js
      rw [compactMoreMembers, writtenMembers, Written.memberTokens]
      simp only [List.append_assoc, List.cons_append]
      exact .punctuation rfl (.quote key (.punctuation rfl
        (hj.append hjs (delimits_compactMoreMembers js))))

end

end Token

/-! ## From tokens to the tree -/

variable {stack : List Frame} {w : Written} {ts : List Token}

/-- After a comma in an array comes a value. -/
theorem closed?_comma (items : List Written) :
    closed? (.items items :: stack) w (.comma :: ts)
      = valueNext? (.items (w :: items) :: stack) ts := by
  rw [closed?.eq_def]
  split
  all_goals rename_i heq
  · exact nomatch heq
  · cases heq
    rfl
  · cases heq
    rfl
  · exact nomatch heq
  · exact nomatch heq
  · rename_i hother _
    exact absurd rfl (hother _)

/-- No tree begins with a closing bracket. -/
theorem tokens_ne_rightBracket (w : Written) (ts rest : List Token) :
    w.tokens ++ ts ≠ .rightBracket :: rest := by
  intro h
  cases w with
  | array items => cases items <;> exact nomatch h
  | object members => cases members <;> exact nomatch h
  | _ => exact nomatch h

/-- After an opening bracket comes a value, unless it is closed. -/
theorem valueNext?_bracket (w : Written) (ts : List Token) :
    valueNext? stack (.leftBracket :: (w.tokens ++ ts))
      = valueNext? (.items [] :: stack) (w.tokens ++ ts) := by
  rw [valueNext?]
  exact fun rest => tokens_ne_rightBracket w ts rest

mutual

/-- **The tokens of a tree are read as that tree**, wherever it stands. -/
theorem valueNext?_tokens : ∀ (w : Written) (stack : List Frame) (ts : List Token),
    valueNext? stack (w.tokens ++ ts) = closed? stack w ts
  | .null, _, _ => rfl
  | .bool _, _, _ => rfl
  | .number _, _, _ => rfl
  | .text _, _, _ => rfl
  | .array [], _, _ => rfl
  | .array (w :: ws), stack, ts => by
      have hw := valueNext?_tokens w (.items [] :: stack)
        (Written.itemTokens ws ++ .rightBracket :: ts)
      have hws := closed?_itemTokens ws [] w stack ts
      rw [Written.tokens]
      simp only [List.append_assoc, List.cons_append, List.nil_append]
      rw [valueNext?_bracket, hw, hws]
      rfl
  | .object [], _, _ => rfl
  | .object ((key, w) :: ws), stack, ts => by
      have hw := valueNext?_tokens w (.members [] key :: stack)
        (Written.memberTokens ws ++ .rightBrace :: ts)
      have hws := closed?_memberTokens ws [] key w stack ts
      rw [Written.tokens]
      simp only [List.append_assoc, List.cons_append, List.nil_append]
      rw [valueNext?, hw, hws]
      rfl

/-- The items after the first, up to the bracket that closes the array. -/
theorem closed?_itemTokens : ∀ (ws items : List Written) (w : Written) (stack : List Frame)
    (ts : List Token),
    closed? (.items items :: stack) w (Written.itemTokens ws ++ .rightBracket :: ts)
      = closed? stack (.array (items.reverse ++ w :: ws)) ts
  | [], items, w, stack, ts => by
      rw [Written.itemTokens, List.nil_append, closed?, List.reverse_cons]
  | w' :: ws, items, w, stack, ts => by
      have hw := valueNext?_tokens w' (.items (w :: items) :: stack)
        (Written.itemTokens ws ++ .rightBracket :: ts)
      have hws := closed?_itemTokens ws (w :: items) w' stack ts
      rw [Written.itemTokens]
      simp only [List.append_assoc, List.cons_append]
      rw [closed?_comma, hw, hws, List.reverse_cons, List.append_assoc]
      rfl

/-- The members after the first, up to the brace that closes the object. -/
theorem closed?_memberTokens : ∀ (ws members : List (List Char × Written)) (key : List Char)
    (w : Written) (stack : List Frame) (ts : List Token),
    closed? (.members members key :: stack) w (Written.memberTokens ws ++ .rightBrace :: ts)
      = closed? stack (.object (members.reverse ++ (key, w) :: ws)) ts
  | [], members, key, w, stack, ts => by
      rw [Written.memberTokens, List.nil_append, closed?, List.reverse_cons]
  | (key', w') :: ws, members, key, w, stack, ts => by
      have hw := valueNext?_tokens w' (.members ((key, w) :: members) key' :: stack)
        (Written.memberTokens ws ++ .rightBrace :: ts)
      have hws := closed?_memberTokens ws ((key, w) :: members) key' w' stack ts
      rw [Written.memberTokens]
      simp only [List.append_assoc, List.cons_append]
      rw [closed?, hw, hws, List.reverse_cons, List.append_assoc]
      rfl

end

theorem ofTokens?_tokens (w : Written) : Written.ofTokens? w.tokens = some w := by
  have h := valueNext?_tokens w [] []
  rw [List.append_nil] at h
  exact h

namespace Written

/-- A row of tokens that are those of a tree is read as the tree. -/
theorem read?_of_reads {cs : List Char} {w : Written} (h : Token.Reads cs w.tokens) :
    read? cs = some w := by
  rw [read?, h.ofChars?, Option.bind_some, ofTokens?_tokens]

/-- **A printed value is read as its tree.** -/
theorem read?_pretty (j : Json) : read? j.pretty.toList = some j.written := by
  rw [pretty, String.toList_ofList]
  exact read?_of_reads (Token.reads_pretty j 0)

/-- **So is a value on one line.** -/
theorem read?_compact (j : Json) : read? j.compact.toList = some j.written := by
  rw [compact, String.toList_ofList]
  exact read?_of_reads (Token.reads_compact j)

end Written
end Json
end VaultQuery
