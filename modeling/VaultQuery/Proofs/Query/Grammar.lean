import VaultQuery.Proofs.Text.Edges
import VaultQuery.Query.Clause

/-! # The grammar of clause expressions

    An expression is cut at its first two colons. The blanks around key and operator do not
    count; colons and blanks after the second colon belong to the value.

    * `Clause.Parts`: an expression in parts;
    * `Clause.Means`: the grammar, with the failures of what it does not have;
    * `Clause.ofExpression_eq_iff`: expressions are read as the grammar says;
    * `Clause.ofExpression_full`, `Clause.ofExpression_short`: a clause that is typed;
    * `Clause.literal_inj`: clauses of one key and operator differ where their literals do. -/

namespace VaultQuery

open Text

/-! ## Names of operators -/

namespace Operator

theorem ofName_name (op : Operator) : ofName op.name = .ok op := by
  rw [ofName, ofName?_name]

theorem ofName_of_forall_ne {name : String} (h : ∀ op : Operator, op.name ≠ name) :
    ofName name = .error (.unknownOperator name) := by
  have hnone : ofName? name = none := by
    rw [ofName?, List.find?_eq_none]
    intro op _ hop
    exact h op (eq_of_beq hop)
  rw [ofName, hnone]

theorem trimmed_name (op : Operator) : Trimmed op.name.toList := by
  cases op <;> exact trimmed_of_all (by decide)

theorem colon_not_mem_name (op : Operator) : ':' ∉ op.name.toList := by
  cases op <;> decide

end Operator

/-! ## Literals -/

/-- An operand is written as the literal it was made of. -/
theorem Operand.literal_ofLiteral (v : Value) : (ofLiteral v).literal = v := by
  cases v with
  | text s =>
      by_cases hs : s = linkLiteral
      · rw [ofLiteral, if_pos hs, hs]
        rfl
      · rw [ofLiteral, if_neg hs]
        rfl
  | _ => rfl

namespace Clause

theorem literal_inj {name : String} {op : Operator} {v w : Value} :
    literal name op v = literal name op w ↔ v = w := by
  constructor
  · intro h
    have hoperand : Operand.ofLiteral v = Operand.ofLiteral w := congrArg operand h
    rw [← Operand.literal_ofLiteral v, hoperand, Operand.literal_ofLiteral]
  · rintro rfl
    rfl

/-! ## The parts of an expression -/

theorem bne_colon_of_not_mem {cs : List Char} (h : ':' ∉ cs) : ∀ c ∈ cs, (c != ':') = true := by
  intro c hc
  rw [bne_iff_ne]
  rintro rfl
  exact h hc

theorem splitColon_of_not_mem {cs : List Char} (h : ':' ∉ cs) : splitColon cs = (cs, none) := by
  have hnil : cs.dropWhile (· != ':') = [] :=
    List.dropWhile_eq_nil_iff.mpr (bne_colon_of_not_mem h)
  rw [splitColon, hnil]

theorem splitColon_append {front : List Char} (h : ':' ∉ front) (rest : List Char) :
    splitColon (front ++ ':' :: rest) = (front, some rest) := by
  have hfront := bne_colon_of_not_mem h
  rw [splitColon, List.dropWhile_append_of_pos hfront, List.takeWhile_append_of_pos hfront]
  simp

/-- An expression in parts: what stands before the first colon, what stands between it and the
    second, and what follows the second, if there is one. -/
structure Parts where
  key : List Char
  op : List Char
  value : Option (List Char)
  colon_not_mem_key : ':' ∉ key
  colon_not_mem_op : ':' ∉ op

namespace Parts

variable (p : Parts)

/-- What follows the name of the operator. -/
def tail : List Char :=
  match p.value with
  | some cs => ':' :: cs
  | none => []

/-- The expression. -/
def text : List Char := p.key ++ ':' :: (p.op ++ p.tail)

/-- The key that is named. -/
def keyName : String := String.ofList (trimChars p.key)

/-- The operator that is named. -/
def opName : String := String.ofList (trimChars p.op)

/-- The value that is meant. -/
def meaning : Value :=
  match p.value with
  | some cs => .ofLiteral (String.ofList cs)
  | none => .null

theorem keyName_eq_empty_iff : p.keyName = "" ↔ (trimChars p.key).isEmpty = true := by
  rw [keyName, ← String.toList_eq_nil_iff, String.toList_ofList, List.isEmpty_iff]

theorem splitColon_tail : splitColon (p.op ++ p.tail) = (p.op, p.value) := by
  rw [tail]
  split
  · rename_i cs hvalue
    rw [splitColon_append p.colon_not_mem_op, hvalue]
  · rename_i hvalue
    rw [List.append_nil, splitColon_of_not_mem p.colon_not_mem_op, hvalue]

end Parts

/-- What has a colon has parts. -/
theorem exists_parts {cs : List Char} (h : ':' ∈ cs) : ∃ p : Parts, p.text = cs := by
  obtain ⟨key, rest, rfl, hkey⟩ := List.eq_append_cons_of_mem h
  by_cases hrest : ':' ∈ rest
  · obtain ⟨op, value, rfl, hop⟩ := List.eq_append_cons_of_mem hrest
    exact ⟨⟨key, op, some value, hkey, hop⟩, rfl⟩
  · refine ⟨⟨key, rest, none, hkey, hrest⟩, ?_⟩
    show key ++ ':' :: (rest ++ []) = _
    rw [List.append_nil]

/-! ## What expressions mean -/

/-- What an expression means: a clause, or the failure of an expression that is none. -/
inductive Means (expression : String) : Except Failure Clause → Prop
  | noOperator : ':' ∉ expression.toList →
      Means expression (.error (.clauseWithoutOperator expression))
  | noKey (p : Parts) : p.text = expression.toList → p.keyName = "" →
      Means expression (.error (.clauseWithoutKey expression))
  | unknownOperator (p : Parts) : p.text = expression.toList → p.keyName ≠ "" →
      (∀ op : Operator, op.name ≠ p.opName) →
      Means expression (.error (.unknownOperator p.opName))
  | clause (p : Parts) (op : Operator) : p.text = expression.toList → p.keyName ≠ "" →
      op.name = p.opName → Means expression (.ok (literal p.keyName op p.meaning))

variable {expression : String} {r : Except Failure Clause}

theorem ofExpression_of_not_mem (h : ':' ∉ expression.toList) :
    ofExpression expression = .error (.clauseWithoutOperator expression) := by
  rw [ofExpression, splitColon_of_not_mem h]

theorem ofExpression_of_text {p : Parts} (h : p.text = expression.toList) :
    ofExpression expression
      = if p.keyName = "" then .error (.clauseWithoutKey expression)
        else ofParts p.keyName p.opName p.meaning := by
  rw [ofExpression, ← h, Parts.text, splitColon_append p.colon_not_mem_key]
  simp only [p.splitColon_tail, p.keyName_eq_empty_iff]
  rfl

/-- Every expression means what it is read as. -/
theorem means_ofExpression (expression : String) : Means expression (ofExpression expression) := by
  by_cases hcolon : ':' ∈ expression.toList
  · obtain ⟨p, hp⟩ := exists_parts hcolon
    rw [ofExpression_of_text hp]
    -- the key is looked at first: what lacks both lacks a key
    by_cases hkey : p.keyName = ""
    · rw [if_pos hkey]
      exact .noKey p hp hkey
    · rw [if_neg hkey, ofParts]
      by_cases hop : ∃ op : Operator, op.name = p.opName
      · obtain ⟨op, hop⟩ := hop
        rw [← hop, Operator.ofName_name]
        exact .clause p op hp hkey hop
      · have hnone : ∀ op : Operator, op.name ≠ p.opName := fun op h => hop ⟨op, h⟩
        rw [Operator.ofName_of_forall_ne hnone]
        exact .unknownOperator p hp hkey hnone
  · rw [ofExpression_of_not_mem hcolon]
    exact .noOperator hcolon

/-- **Expressions are read as the grammar says.** -/
theorem ofExpression_eq_iff : ofExpression expression = r ↔ Means expression r := by
  constructor
  · rintro rfl
    exact means_ofExpression expression
  · intro h
    cases h with
    | noOperator hcolon => exact ofExpression_of_not_mem hcolon
    | noKey p hp hkey => rw [ofExpression_of_text hp, if_pos hkey]
    | unknownOperator p hp hkey hop =>
        rw [ofExpression_of_text hp, if_neg hkey, ofParts, Operator.ofName_of_forall_ne hop]
        rfl
    | clause p op hp hkey hop =>
        rw [ofExpression_of_text hp, if_neg hkey, ofParts, ← hop, Operator.ofName_name]
        rfl

/-- An expression is a clause if it has a colon, a key and the name of an operator. -/
theorem exists_ofExpression_iff : (∃ c, ofExpression expression = .ok c) ↔
    ∃ p : Parts, p.text = expression.toList ∧ p.keyName ≠ "" ∧
      ∃ op : Operator, op.name = p.opName := by
  constructor
  · rintro ⟨c, hc⟩
    cases ofExpression_eq_iff.mp hc with
    | clause p op hp hkey hop => exact ⟨p, hp, hkey, op, hop⟩
  · rintro ⟨p, hp, hkey, op, hop⟩
    exact ⟨_, ofExpression_eq_iff.mpr (.clause p op hp hkey hop)⟩

/-! ## Typed clauses -/

/-- The text can stand as the key of an expression. -/
structure IsKeyName (name : String) : Prop where
  ne_empty : name ≠ ""
  trimmed : Trimmed name.toList
  colon_not_mem : ':' ∉ name.toList

variable {name : String}

/-- The parts of a typed clause. -/
def IsKeyName.parts (h : IsKeyName name) (op : Operator) (value : Option (List Char)) : Parts :=
  ⟨name.toList, op.name.toList, value, h.colon_not_mem, op.colon_not_mem_name⟩

theorem IsKeyName.means (h : IsKeyName name) (op : Operator) (value : Option (List Char))
    (htext : (h.parts op value).text = expression.toList) :
    Means expression (.ok (literal name op (h.parts op value).meaning)) := by
  have hkey : (h.parts op value).keyName = name := by
    show String.ofList (trimChars name.toList) = name
    rw [trimChars_of_trimmed h.trimmed, String.ofList_toList]
  have hop : op.name = (h.parts op value).opName := by
    show op.name = String.ofList (trimChars op.name.toList)
    rw [trimChars_of_trimmed op.trimmed_name, String.ofList_toList]
  have hne : (h.parts op value).keyName ≠ "" := by
    rw [hkey]
    exact h.ne_empty
  have hclause := Means.clause (h.parts op value) op htext hne hop
  rwa [hkey] at hclause

/-- A clause with a value. -/
theorem ofExpression_full (h : IsKeyName name) (op : Operator) (t : String) :
    ofExpression (name ++ ":" ++ op.name ++ ":" ++ t)
      = .ok (literal name op (Value.ofLiteral t)) := by
  have htext : (h.parts op (some t.toList)).text
      = (name ++ ":" ++ op.name ++ ":" ++ t).toList := by
    show name.toList ++ ':' :: (op.name.toList ++ ':' :: t.toList) = _
    simp
  have hmeans := h.means op (some t.toList) htext
  have hmeaning : (h.parts op (some t.toList)).meaning = Value.ofLiteral t := by
    show Value.ofLiteral (String.ofList t.toList) = _
    rw [String.ofList_toList]
  rw [hmeaning] at hmeans
  exact ofExpression_eq_iff.mpr hmeans

/-- A clause without a value. -/
theorem ofExpression_short (h : IsKeyName name) (op : Operator) :
    ofExpression (name ++ ":" ++ op.name) = .ok (literal name op .null) := by
  have htext : (h.parts op none).text = (name ++ ":" ++ op.name).toList := by
    show name.toList ++ ':' :: (op.name.toList ++ []) = _
    simp
  exact ofExpression_eq_iff.mpr (h.means op none htext)

end Clause
end VaultQuery
