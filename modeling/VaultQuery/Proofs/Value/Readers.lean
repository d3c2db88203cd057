import VaultQuery.Snapshot

/-! # The two readings of JSON

    A value of a file must be free of objects; a value of a clause may be any JSON, its objects
    being kept as texts. What both can read they read alike.

    * `Json.Occurs`, `Json.hasObject`: a value inside a value, and the search for an object;
    * `Value.ofJson?_eq`: the reading of files in terms of that of clauses;
    * `Value.read?_agrees`: the same for texts. -/

namespace VaultQuery

/-! ## Objects inside a value -/

namespace Json

/-- The value is the other one, or stands in it at some depth. -/
inductive Occurs (part : Json) : Json → Prop
  | self : Occurs part part
  | item {items : List Json} {j : Json} : j ∈ items → Occurs part j → Occurs part (.array items)
  | member {members : List (String × Json)} {key : String} {j : Json} :
      (key, j) ∈ members → Occurs part j → Occurs part (.object members)

mutual

/-- There is an object in the value, itself or deeper. -/
def hasObject : Json → Bool
  | .array items => itemsHaveObject items
  | .object _ => true
  | _ => false

/-- There is an object in one of the items. -/
def itemsHaveObject : List Json → Bool
  | [] => false
  | j :: js => j.hasObject || itemsHaveObject js

end

theorem itemsHaveObject_iff (js : List Json) :
    itemsHaveObject js = true ↔ ∃ j ∈ js, j.hasObject = true := by
  induction js with
  | nil => simp [itemsHaveObject]
  | cons j js ih => simp [itemsHaveObject, ih]

/-- An object that occurs is found. -/
theorem hasObject_of_occurs {members : List (String × Json)} {j : Json}
    (h : Occurs (.object members) j) : j.hasObject = true := by
  induction h with
  | self => rfl
  | item hmem _ ih => exact (itemsHaveObject_iff _).mpr ⟨_, hmem, ih⟩
  | member => rfl

mutual

/-- What is found is an object that occurs. -/
theorem exists_occurs_of_hasObject : ∀ j : Json, j.hasObject = true →
    ∃ members, Occurs (.object members) j
  | .array items, h => by
      obtain ⟨members, j, hmem, hoccurs⟩ := exists_occurs_of_itemsHaveObject items h
      exact ⟨members, .item hmem hoccurs⟩
  | .object members, _ => ⟨members, .self⟩
  | .null, h => nomatch h
  | .bool _, h => nomatch h
  | .integer _, h => nomatch h
  | .real _, h => nomatch h
  | .text _, h => nomatch h

theorem exists_occurs_of_itemsHaveObject : ∀ js : List Json, itemsHaveObject js = true →
    ∃ members, ∃ j ∈ js, Occurs (.object members) j
  | [], h => nomatch h
  | j :: js, h => by
      rw [itemsHaveObject, Bool.or_eq_true] at h
      rcases h with h | h
      · obtain ⟨members, hoccurs⟩ := exists_occurs_of_hasObject j h
        exact ⟨members, j, List.mem_cons_self .., hoccurs⟩
      · obtain ⟨members, i, hmem, hoccurs⟩ := exists_occurs_of_itemsHaveObject js h
        exact ⟨members, i, List.mem_cons_of_mem j hmem, hoccurs⟩

end

/-- The search finds an object if there is one. -/
theorem hasObject_eq_false_iff (j : Json) :
    j.hasObject = false ↔ ∀ members, ¬ Occurs (.object members) j := by
  rw [← Bool.not_eq_true]
  constructor
  · exact fun hnot members hoccurs => hnot (hasObject_of_occurs hoccurs)
  · intro hnone hobject
    obtain ⟨members, hoccurs⟩ := exists_occurs_of_hasObject j hobject
    exact hnone members hoccurs

end Json

/-! ## Reading -/

namespace Value

open Json

mutual

/-- **A value of a file is read as one of a clause is**, unless there is an object in it. -/
theorem ofJson?_eq : ∀ j : Json, ofJson? j = if j.hasObject then none else some (ofAnyJson j)
  | .null => rfl
  | .bool _ => rfl
  | .integer _ => rfl
  | .real _ => rfl
  | .text _ => rfl
  | .object _ => rfl
  | .array items => by
      have hlist : ofJson? (.array items) = (ofJsonItems? items).map .list := ofJson?_cases _
      rw [hlist, ofJsonItems?_eq items, hasObject, ofAnyJson]
      split
      · rfl
      · rfl

theorem ofJsonItems?_eq : ∀ js : List Json,
    ofJsonItems? js = if itemsHaveObject js then none else some (ofAnyJsonItems js)
  | [] => rfl
  | j :: js => by
      rw [ofJsonItems?, ofJson?_eq j, ofJsonItems?_eq js, itemsHaveObject, ofAnyJsonItems]
      cases j.hasObject with
      | true => rfl
      | false =>
          cases itemsHaveObject js with
          | true => rfl
          | false => rfl

end

/-- What a file can hold at all is read as in a clause. -/
theorem eq_ofAnyJson {j : Json} {v : Value} (h : ofJson? j = some v) : v = ofAnyJson j := by
  rw [ofJson?_eq] at h
  split at h
  · cases h
  · exact (Option.some.inj h).symm

/-- The value of a text as files hold it. -/
def read? (s : String) : Option Value :=
  (Json.Written.read? s.toList).bind (Value.ofWritten? Json.nestingLimit)

theorem read?_eq (s : String) : read? s = (Json.read? s).bind ofJson? := by
  rw [read?, Json.read?, Option.bind_assoc]
  rfl

/-- **The two readings of JSON agree.** A text that is JSON has a value for a clause. It has one
    for a file exactly when no object occurs in it at any depth, and then it is the same value,
    every number with the same bits. -/
theorem read?_agrees {s : String} {j : Json} (h : Json.read? s = some j) :
    ofLiteral s = ofAnyJson j ∧
      ((∃ v, read? s = some v) ↔ ∀ members, ¬ Occurs (.object members) j) ∧
      ∀ v, read? s = some v → v = ofAnyJson j := by
  have hliteral : ofLiteral s = ofAnyJson j := by rw [ofLiteral, h]
  have hread : read? s = ofJson? j := by rw [read?_eq, h, Option.bind_some]
  rw [← hasObject_eq_false_iff, hread]
  refine ⟨hliteral, ?_, fun v hv => eq_ofAnyJson hv⟩
  rw [ofJson?_eq]
  cases j.hasObject <;> simp

/-- Negative zero, and an integer that no double is. -/
theorem read?_of_list :
    Json.read? "[-0, [9007199254740993, \"\x7b\x7d\"]]"
      = some (.array [.real (.zero true), .array [.integer 9007199254740993, .text "\x7b\x7d"]]) := by
  have hwritten : Json.Written.read? "[-0, [9007199254740993, \"\x7b\x7d\"]]".toList
      = some (.array [.number ⟨true, ['0'], [], none⟩,
          .array [.number ⟨false, "9007199254740993".toList, [], none⟩,
            .text "\x7b\x7d".toList]]) := by rfl
  have hzero : Numeral.number? ⟨true, ['0'], [], none⟩ = some (.real (.zero true)) := by
    have hreal : Numeral.real? ⟨true, ['0'], [], none⟩ = some (.zero true) := by decide +kernel
    show (Numeral.real? ⟨true, ['0'], [], none⟩).map Number.real = _
    rw [hreal]
    rfl
  rw [Json.read?, hwritten, Option.bind_some]
  simp only [Json.ofWritten?, Json.ofItems?, nestingLimit, hzero]
  rfl

/-- Both readers round the integer to its neighbour and keep the sign of zero. -/
theorem read?_agrees_of_list :
    let j : Json := .array [.real (.zero true), .array [.integer 9007199254740993,
      .text "\x7b\x7d"]]
    Json.read? "[-0, [9007199254740993, \"\x7b\x7d\"]]" = some j ∧
      read? "[-0, [9007199254740993, \"\x7b\x7d\"]]" = some (.list [.number (.zero true),
        .list [.number (.ofInt 9007199254740993), .text "\x7b\x7d"]]) := by
  intro j
  obtain ⟨-, hiff, hsame⟩ := read?_agrees read?_of_list
  obtain ⟨v, hv⟩ := hiff.mpr ((hasObject_eq_false_iff j).mp rfl)
  exact ⟨read?_of_list, hv.trans (congrArg some (hsame v hv))⟩

end Value
end VaultQuery
