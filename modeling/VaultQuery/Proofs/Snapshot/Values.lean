import VaultQuery.Snapshot
import VaultQuery.Proofs.Json.Magnitude
import VaultQuery.Proofs.Json.Tree

/-! # Values in snapshots

    A snapshot has no dates: a date is written as a text and stays one. A number comes back as
    what its printed digits are read as. Everything else comes back as it was, if its lists are
    not nested too deep.

    * `Value.scalars`, `Value.depth`: what a value is made of and how deep its lists go;
    * `Double.reread`, `Value.reread`: what a number and a value are read as;
    * `Value.ofWritten?_toJson`: a value in a snapshot is read as that, unless its lists are
      nested too deep;
    * `Double.ReadsBack`: the digits of a number mean the number;
    * `Value.reloaded`: a value with texts for dates, which is what a value is read as whose
      numbers read back. -/

namespace VaultQuery

namespace Value

mutual

/-- The parts of a value that are no lists. -/
def scalars : Value → List Value
  | .list items => scalarsOfItems items
  | v => [v]

/-- The parts of items that are no lists. -/
def scalarsOfItems : List Value → List Value
  | [] => []
  | v :: vs => v.scalars ++ scalarsOfItems vs

end

mutual

/-- How many lists stand inside each other. -/
def depth : Value → Nat
  | .list items => depthOfItems items + 1
  | _ => 0

/-- The greatest depth of some items. -/
def depthOfItems : List Value → Nat
  | [] => 0
  | v :: vs => max v.depth (depthOfItems vs)

end

end Value

/-- What the text of a number in JSON means. It is a number again, or nothing if the number is
    not finite. -/
def Double.reread (d : Double) : Value := Value.ofLiteral (Layout.json.write d)

namespace Value

mutual

/-- What a value is read as that was written into a snapshot. -/
def reread : Value → Value
  | .number d => d.reread
  | .date t => .text t.withZulu
  | .list items => .list (rereadItems items)
  | v => v

/-- What items are read as. -/
def rereadItems : List Value → List Value
  | [] => []
  | v :: vs => v.reread :: rereadItems vs

end

mutual

/-- A value with texts for dates. -/
def reloaded : Value → Value
  | .date t => .text t.withZulu
  | .list items => .list (reloadedItems items)
  | v => v

/-- Items with texts for dates. -/
def reloadedItems : List Value → List Value
  | [] => []
  | v :: vs => v.reloaded :: reloadedItems vs

end

/-- No part of the value is a date. -/
def Dateless (v : Value) : Prop := ∀ t, Value.date t ∉ v.scalars

mutual

theorem reloaded_eq_self : ∀ v : Value, v.Dateless → v.reloaded = v
  | .null, _ => rfl
  | .bool _, _ => rfl
  | .number _, _ => rfl
  | .text _, _ => rfl
  | .date t, h => absurd (List.mem_singleton.mpr rfl) (h t)
  | .list items, h => congrArg Value.list (reloadedItems_eq_self items h)

theorem reloadedItems_eq_self : ∀ vs : List Value, (∀ t, Value.date t ∉ scalarsOfItems vs) →
    reloadedItems vs = vs
  | [], _ => rfl
  | v :: vs, h => by
      have hv := reloaded_eq_self v fun t ht => h t (List.mem_append_left _ ht)
      have hvs := reloadedItems_eq_self vs fun t ht => h t (List.mem_append_right _ ht)
      rw [reloadedItems, hv, hvs]

end

end Value

/-! ## Numbers -/

/-- The text of a number in JSON is read as that number. -/
def Double.ReadsBack (d : Double) : Prop := Json.read? (Layout.json.write d) = some (.real d)

instance (d : Double) : Decidable d.ReadsBack :=
  match h : Json.read? (Layout.json.write d) with
  | some (.real e) =>
      if he : e = d then .isTrue (h.trans (by rw [he]))
      else .isFalse fun hd => he (Json.real.inj (Option.some.inj (h.symm.trans hd)))
  | some .null => .isFalse fun hd => nomatch h.symm.trans hd
  | some (.bool _) => .isFalse fun hd => nomatch h.symm.trans hd
  | some (.integer _) => .isFalse fun hd => nomatch h.symm.trans hd
  | some (.text _) => .isFalse fun hd => nomatch h.symm.trans hd
  | some (.array _) => .isFalse fun hd => nomatch h.symm.trans hd
  | some (.object _) => .isFalse fun hd => nomatch h.symm.trans hd
  | none => .isFalse fun hd => nomatch h.symm.trans hd

/-- Not every finite number reads back: this one is read as its neighbour. -/
example : (Double.ofBits 0xF071CEF43F724C2F).isFinite = true ∧
    ¬ (Double.ofBits 0xF071CEF43F724C2F).ReadsBack := by
  decide +kernel

theorem Double.ReadsBack.reread {d : Double} (h : d.ReadsBack) : d.reread = .number d := by
  have hread : Json.read? (Layout.json.write d) = some (.real d) := h
  rw [Double.reread, Value.ofLiteral, hread]
  rfl

/-- The text of a number means what its tree means. -/
theorem Double.read?_write (d : Double) :
    Json.read? (Layout.json.write d) = Json.ofWritten? Json.nestingLimit (Json.real d).written := by
  have hread := Json.Written.read?_pretty (.real d)
  have hpretty : (Json.real d).pretty = Layout.json.write d := String.ofList_toList
  rw [hpretty] at hread
  rw [Json.read?, hread, Option.bind_some]

/-- **Every number in a snapshot can be read**, at any depth. -/
theorem Double.ofWritten?_real (d : Double) (limit : Nat) :
    Value.ofWritten? limit (Json.real d).written = some d.reread := by
  rw [reread, Value.ofLiteral, read?_write, Value.ofWritten?, Json.written]
  by_cases hfinite : d.isFinite = true
  · obtain ⟨e, he⟩ := exists_number?_ofDouble hfinite
    rw [if_pos hfinite, Json.ofWritten?, Json.ofWritten?, he]
    rfl
  · rw [if_neg hfinite]
    rfl

/-! ## Values -/

namespace Value

open Json

/-- Items are read one by one, in JSON and as values. -/
theorem ofItems?_cons_bind (limit : Nat) (w : Written) (ws : List Written) :
    (ofItems? limit (w :: ws)).bind ofJsonItems? =
      match (Json.ofWritten? limit w).bind ofJson?, (ofItems? limit ws).bind ofJsonItems? with
      | some v, some vs => some (v :: vs)
      | _, _ => none := by
  rw [ofItems?]
  cases Json.ofWritten? limit w with
  | none => rfl
  | some j =>
      cases ofItems? limit ws with
      | some js => rfl
      | none =>
          show none = match ofJson? j, (none : Option (List Value)) with
            | some v, some vs => some (v :: vs)
            | _, _ => none
          cases ofJson? j with
          | none => rfl
          | some v => rfl

/-- A list is read with one level less for its items. -/
theorem ofWritten?_array (limit : Nat) (ws : List Written) :
    Value.ofWritten? limit (.array ws)
      = if limit = 0 then none
        else ((ofItems? (limit - 1) ws).bind ofJsonItems?).map .list := by
  rw [Value.ofWritten?, Json.ofWritten?]
  split
  · rfl
  · cases ofItems? (limit - 1) ws with
    | none => rfl
    | some js => rfl

mutual

/-- **A value in a snapshot can be read**, unless its lists are nested too deep. -/
theorem ofWritten?_toJson : ∀ (v : Value) (limit : Nat),
    Value.ofWritten? limit v.toJson.written = if v.depth ≤ limit then some v.reread else none
  | .null, limit => (if_pos (Nat.zero_le limit)).symm
  | .bool _, limit => (if_pos (Nat.zero_le limit)).symm
  | .text s, limit => by
      have hfits : (Value.text s).depth ≤ limit := Nat.zero_le limit
      rw [if_pos hfits, toJson, written, Value.ofWritten?, Json.ofWritten?, textOf?_escape]
      rfl
  | .date t, limit => by
      have hfits : (Value.date t).depth ≤ limit := Nat.zero_le limit
      rw [if_pos hfits, toJson, written, Value.ofWritten?, Json.ofWritten?, textOf?_escape]
      rfl
  | .number d, limit => by
      have hfits : (Value.number d).depth ≤ limit := Nat.zero_le limit
      rw [if_pos hfits]
      exact d.ofWritten?_real limit
  | .list items, limit => by
      rw [toJson, written, ofWritten?_array, depth]
      by_cases hlimit : limit = 0
      · rw [if_pos hlimit, if_neg (by omega)]
      · rw [if_neg hlimit, ofItems?_toJsonItems items (limit - 1)]
        by_cases hfits : depthOfItems items ≤ limit - 1
        · rw [if_pos hfits, if_pos (by omega)]
          rfl
        · rw [if_neg hfits, if_neg (by omega)]
          rfl

theorem ofItems?_toJsonItems : ∀ (vs : List Value) (limit : Nat),
    (ofItems? limit (writtenItems (toJsonItems vs))).bind ofJsonItems?
      = if depthOfItems vs ≤ limit then some (rereadItems vs) else none
  | [], limit => (if_pos (Nat.zero_le limit)).symm
  | v :: vs, limit => by
      have hv := ofWritten?_toJson v limit
      have hvs := ofItems?_toJsonItems vs limit
      rw [Value.ofWritten?] at hv
      rw [toJsonItems, writtenItems, ofItems?_cons_bind, hv, hvs, depthOfItems, rereadItems]
      by_cases hfits : v.depth ≤ limit
      · by_cases hrest : depthOfItems vs ≤ limit
        · rw [if_pos hfits, if_pos hrest, if_pos (Nat.max_le.mpr ⟨hfits, hrest⟩)]
        · rw [if_pos hfits, if_neg hrest, if_neg fun hmax => hrest (Nat.max_le.mp hmax).2]
      · rw [if_neg hfits, if_neg fun hmax => hfits (Nat.max_le.mp hmax).1]

end

mutual

/-- Where numbers read back, only dates are not read as they were. -/
theorem reread_eq_reloaded : ∀ v : Value, (∀ d, Value.number d ∈ v.scalars → d.ReadsBack) →
    v.reread = v.reloaded
  | .null, _ => rfl
  | .bool _, _ => rfl
  | .text _, _ => rfl
  | .date _, _ => rfl
  | .number d, h => (h d (List.mem_singleton.mpr rfl)).reread
  | .list items, h => congrArg Value.list (rereadItems_eq_reloadedItems items h)

theorem rereadItems_eq_reloadedItems : ∀ vs : List Value,
    (∀ d, Value.number d ∈ scalarsOfItems vs → d.ReadsBack) → rereadItems vs = reloadedItems vs
  | [], _ => rfl
  | v :: vs, h => by
      have hv := reread_eq_reloaded v fun d hd => h d (List.mem_append_left _ hd)
      have hvs := rereadItems_eq_reloadedItems vs fun d hd => h d (List.mem_append_right _ hd)
      rw [rereadItems, reloadedItems, hv, hvs]

end

end Value
end VaultQuery
