import VaultQuery.Proofs.Query.Grammar

/-! # Keys of clauses and of sort fields

    A clause expression is cut at its first colons and a sort expression at its last one. So the
    key of a clause never has a colon, and the key of a sort field has one when its expression
    has two.

    * `Clause.exists_key_of_ofExpression`: the keys of clauses;
    * `SortField.exists_front_of_ofExpression`: where the key of a sort field comes from;
    * `SortField.key_of_ofExpression`: the keys of both, and what a clause makes of the key of a
      sort field;
    * `SortField.not_isKeyName_of_ofExpression`: a key that no clause can have. -/

namespace VaultQuery

open Text

/-! ## Keys of clauses -/

/-- **The key of an expression is a name without blanks at its edges and without colons.** -/
theorem Clause.exists_key_of_ofExpression {expression : String} {c : Clause}
    (h : ofExpression expression = .ok c) : ∃ name, IsKeyName name ∧ c.key = .ofName name := by
  cases ofExpression_eq_iff.mp h with
  | clause p op hp hkey hop =>
      refine ⟨p.keyName, ⟨hkey, ?_, ?_⟩, rfl⟩
      · rw [Parts.keyName, String.toList_ofList]
        exact trimmed_trimChars p.key
      · rw [Parts.keyName, String.toList_ofList, mem_trimChars_iff rfl]
        exact p.colon_not_mem_key

namespace SortField

/-! ## The last colon -/

theorem splitLastColon_of_not_mem {cs : List Char} (h : ':' ∉ cs) : splitLastColon cs = none := by
  have hreverse : ':' ∉ cs.reverse := fun hc => h (List.mem_reverse.mp hc)
  have hnil : cs.reverse.dropWhile (· != ':') = [] :=
    List.dropWhile_eq_nil_iff.mpr (Clause.bne_colon_of_not_mem hreverse)
  rw [splitLastColon, hnil]

theorem splitLastColon_append (front : List Char) {last : List Char} (h : ':' ∉ last) :
    splitLastColon (front ++ ':' :: last) = some (front, last) := by
  have hlast := Clause.bne_colon_of_not_mem fun hc => h (List.mem_reverse.mp hc)
  have hreverse : (front ++ ':' :: last).reverse = last.reverse ++ ':' :: front.reverse := by
    simp
  rw [splitLastColon, hreverse, List.dropWhile_append_of_pos hlast,
    List.takeWhile_append_of_pos hlast]
  simp

/-- What has a colon has a last one. -/
theorem exists_last_colon {cs : List Char} (h : ':' ∈ cs) :
    ∃ front last, cs = front ++ ':' :: last ∧ ':' ∉ last := by
  obtain ⟨last, front, hcs, hlast⟩ := List.eq_append_cons_of_mem (List.mem_reverse.mpr h)
  refine ⟨front.reverse, last.reverse, ?_, fun hc => hlast (List.mem_reverse.mp hc)⟩
  rw [← List.reverse_reverse cs, hcs]
  simp

/-! ## Keys of sort fields -/

variable {expression : String} {f : SortField}

/-- The key of a sort field is what stands before the last colon, if there is one. -/
theorem exists_front_of_ofExpression (h : ofExpression expression = .ok f) :
    ∃ front, trimChars front ≠ [] ∧ f.key = .ofName (String.ofList (trimChars front)) ∧
      (expression.toList = front ∧ ':' ∉ front ∨
        ∃ last, expression.toList = front ++ ':' :: last ∧ ':' ∉ last) := by
  by_cases hcolon : ':' ∈ expression.toList
  · obtain ⟨front, last, hsplit, hlast⟩ := exists_last_colon hcolon
    rw [ofExpression, hsplit, splitLastColon_append front hlast] at h
    simp only at h
    split at h
    · cases h
    · rename_i hne
      -- the direction is looked at last, and only decides whether there is a field
      have hkey : f.key = .ofName (String.ofList (trimChars front)) := by
        split at h
        · cases h
          rfl
        · split at h
          · cases h
            rfl
          · cases h
      exact ⟨front, fun hnil => hne (List.isEmpty_iff.mpr hnil), hkey, .inr ⟨last, hsplit, hlast⟩⟩
  · rw [ofExpression, splitLastColon_of_not_mem hcolon] at h
    simp only at h
    split at h
    · cases h
    · rename_i hne
      cases h
      exact ⟨expression.toList, fun hnil => hne (List.isEmpty_iff.mpr hnil), rfl,
        .inl ⟨rfl, hcolon⟩⟩

theorem name_ne_empty (h : ofExpression expression = .ok f) : f.key.name ≠ "" := by
  obtain ⟨front, hne, hkey, -⟩ := exists_front_of_ofExpression h
  rw [hkey, Key.name_ofName]
  intro hempty
  rw [← String.toList_eq_nil_iff, String.toList_ofList] at hempty
  exact hne hempty

theorem trimmed_name (h : ofExpression expression = .ok f) : Trimmed f.key.name.toList := by
  obtain ⟨front, -, hkey, -⟩ := exists_front_of_ofExpression h
  rw [hkey, Key.name_ofName, String.toList_ofList]
  exact trimmed_trimChars front

/-- A colon that is not the last one stays in the key. -/
theorem colon_not_mem_name_iff (h : ofExpression expression = .ok f) :
    ':' ∉ f.key.name.toList ↔ expression.toList.count ':' ≤ 1 := by
  obtain ⟨front, -, hkey, hfront⟩ := exists_front_of_ofExpression h
  rw [hkey, Key.name_ofName, String.toList_ofList, mem_trimChars_iff rfl, ← List.count_eq_zero]
  rcases hfront with ⟨hwhole, hnone⟩ | ⟨last, hsplit, hlast⟩
  · rw [hwhole, List.count_eq_zero_of_not_mem hnone]
    simp
  · rw [hsplit, List.count_append, List.count_cons_self, List.count_eq_zero_of_not_mem hlast]
    omega

theorem isKeyName_iff (h : ofExpression expression = .ok f) :
    Clause.IsKeyName f.key.name ↔ expression.toList.count ':' ≤ 1 := by
  rw [← colon_not_mem_name_iff h]
  constructor
  · exact fun hkey => hkey.colon_not_mem
  · exact fun hcolon => ⟨name_ne_empty h, trimmed_name h, hcolon⟩

theorem ofName_name (h : ofExpression expression = .ok f) : Key.ofName f.key.name = f.key := by
  obtain ⟨front, -, hkey, -⟩ := exists_front_of_ofExpression h
  rw [hkey, Key.name_ofName]

/-- The key of a clause is a sort expression by itself. -/
theorem ofExpression_of_isKeyName {name : String} (h : Clause.IsKeyName name) :
    ofExpression name = .ok ⟨.ofName name, false⟩ := by
  have hne : name.toList.isEmpty = false := by
    rw [List.isEmpty_eq_false_iff]
    exact fun hnil => h.ne_empty (String.toList_eq_nil_iff.mp hnil)
  rw [ofExpression, splitLastColon_of_not_mem h.colon_not_mem]
  simp only [trimChars_of_trimmed h.trimmed, hne, String.ofList_toList]
  rfl

/-- **Clauses and sort fields have the same keys, but for colons.** The key of a clause is never
    empty, has no blanks at its edges and no colon, and one can sort by it. The key of a sort
    field is never empty and has no blanks at its edges either, but it has a colon exactly when
    its expression has two. Without one it can be typed as the key of any clause and is the key
    of that clause; with one it is the key of no clause. -/
theorem key_of_ofExpression (expression : String) :
    (∀ c, Clause.ofExpression expression = .ok c →
      Clause.IsKeyName c.key.name ∧ ofExpression c.key.name = .ok ⟨c.key, false⟩) ∧
      ∀ f, ofExpression expression = .ok f →
        f.key.name ≠ "" ∧ Trimmed f.key.name.toList ∧
          (':' ∉ f.key.name.toList ↔ expression.toList.count ':' ≤ 1) ∧
          (expression.toList.count ':' ≤ 1 → ∀ op : Operator,
            Clause.ofExpression (f.key.name ++ ":" ++ op.name) = .ok ⟨f.key, op, .value .null⟩ ∧
            ∀ t, Clause.ofExpression (f.key.name ++ ":" ++ op.name ++ ":" ++ t)
              = .ok ⟨f.key, op, .ofLiteral (.ofLiteral t)⟩) ∧
          (1 < expression.toList.count ':' → ∀ other c,
            Clause.ofExpression other = .ok c → c.key ≠ f.key) := by
  constructor
  · intro c h
    obtain ⟨name, hname, hkey⟩ := Clause.exists_key_of_ofExpression h
    rw [hkey, Key.name_ofName]
    exact ⟨hname, ofExpression_of_isKeyName hname⟩
  · intro f h
    refine ⟨name_ne_empty h, trimmed_name h, colon_not_mem_name_iff h, ?_, ?_⟩
    · intro hone op
      have hkey := (isKeyName_iff h).mpr hone
      have hname := ofName_name h
      constructor
      · rw [Clause.ofExpression_short hkey, Clause.literal, hname]
        rfl
      · intro t
        rw [Clause.ofExpression_full hkey, Clause.literal, hname]
    · intro htwo other c hc hsame
      obtain ⟨name, hname, hkey⟩ := Clause.exists_key_of_ofExpression hc
      rw [← Key.name_ofName name, ← hkey, hsame, isKeyName_iff h] at hname
      omega

/-- A rating by which documents are sorted can be asked for. -/
theorem key_of_ofExpression_of_rating :
    ofExpression " rating : desc" = .ok ⟨.field "rating", true⟩ ∧
      " rating : desc".toList.count ':' ≤ 1 ∧
      Clause.ofExpression "rating:gt:5" = .ok ⟨.field "rating", .gt, .ofLiteral (.ofLiteral "5")⟩ := by
  have hsort : ofExpression " rating : desc" = .ok ⟨.field "rating", true⟩ := rfl
  have hone : " rating : desc".toList.count ':' ≤ 1 := by decide
  obtain ⟨-, -, -, htyped, -⟩ := (key_of_ofExpression " rating : desc").2 _ hsort
  exact ⟨hsort, hone, (htyped hone .gt).2 "5"⟩

/-- **A sort field may have a key that no clause has**: of two colons the first stays in it. A
    clause expression with that key has its second part for an operator. -/
theorem not_isKeyName_of_ofExpression :
    ofExpression "a:b:desc" = .ok ⟨.field "a:b", true⟩ ∧
      ':' ∈ (Key.field "a:b").name.toList ∧
      Clause.ofExpression "a:b:eq:1" = .error (.unknownOperator "b") := by
  refine ⟨rfl, by decide, ?_⟩
  exact rfl

end SortField
end VaultQuery
