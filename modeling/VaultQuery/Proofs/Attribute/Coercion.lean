import VaultQuery.Vault
import VaultQuery.Proofs.Text.Edges

/-! # Coercion is settled after one step

    A value written under a kind is seen through the same kind when it is read back.

    * `Kind.Sees`, `Kind.sees_coerce`: what a kind can make of a value;
    * `Kind.coerce_coerce`: seeing it twice is seeing it once;
    * `Kind.coerce_list`: a list is a list for every kind;
    * `Kind.coerce_link`: a link spells no number, date or truth value, so that only the list
      kind makes anything else of it. -/

namespace VaultQuery

theorem readDouble?_bracket {s : String} {cs : List Char} (h : s.toList = '[' :: cs) :
    readDouble? s = none := by
  obtain ⟨rest, hrest⟩ := Text.trimChars_cons (c := '[') (by decide) cs
  rw [readDouble?, h, hrest]
  rfl

theorem readBool?_bracket {s : String} {cs : List Char} (h : s.toList = '[' :: cs) :
    readBool? s = none := by
  obtain ⟨rest, hrest⟩ := Text.trimChars_cons (c := '[') (by decide) cs
  simp [readBool?, h, hrest]

theorem Instant.read?_bracket {s : String} {cs : List Char} (h : s.toList = '[' :: cs) :
    Instant.read? s = none := by
  obtain ⟨rest, hrest⟩ := Text.trimChars_cons (c := '[') (by decide) cs
  rw [Instant.read?, h, hrest]
  rfl

namespace Kind

@[simp] theorem coerce_null (k : Kind) : k.coerce .null = .null := by cases k <;> rfl

/-- A list is a list for every kind. -/
@[simp] theorem coerce_list (k : Kind) (items : List Value) :
    k.coerce (.list items) = .list items := by cases k <;> rfl

/-- What a kind can make of a value. Every kind leaves some values as they are; beside that
    `text` writes the text form of a single value, `list` puts one into a list, and the others
    read texts. -/
inductive Sees : Kind → Value → Value → Prop
  | same {k : Kind} {v : Value} : Sees k v v
  | text {v : Value} {s : String} (hitems : v.items? = none) (h : v.text? = some s) :
      Sees .text v (.text s)
  | list {v : Value} (hitems : v.items? = none) : Sees .list v (.list [v])
  | number {s : String} {d : Double} (h : readDouble? s = some d) :
      Sees .number (.text s) (.number d)
  | date {s : String} {t : Instant} (h : Instant.read? s = some t) :
      Sees .date (.text s) (.date t)
  | bool {s : String} {b : Bool} (h : readBool? s = some b) : Sees .bool (.text s) (.bool b)

/-- **What a kind makes of a value is one of these.** -/
theorem sees_coerce (k : Kind) (v : Value) : k.Sees v (k.coerce v) := by
  cases v with
  | null =>
      rw [coerce_null]
      exact .same
  | list items =>
      rw [coerce_list]
      exact .same
  | text s =>
      cases k with
      | any => exact .same
      | text => exact .same
      | list => exact .list rfl
      | number =>
          rw [coerce]
          split
          · rename_i d hd
            exact .number hd
          · exact .same
      | date =>
          rw [coerce]
          split
          · rename_i t ht
            exact .date ht
          · exact .same
      | bool =>
          rw [coerce]
          split
          · rename_i b hb
            exact .bool hb
          · exact .same
  | _ =>
      cases k with
      | text => exact .text rfl rfl
      | list => exact .list rfl
      | _ => exact .same

/-- The list kind makes a list of everything that is there. -/
theorem list_coerce_eq (w : Value) :
    Kind.list.coerce w = .null ∨ ∃ items, Kind.list.coerce w = .list items := by
  cases w with
  | null => exact Or.inl rfl
  | list items => exact Or.inr ⟨items, rfl⟩
  | _ => exact Or.inr ⟨_, rfl⟩

/-- A value as a kind sees it looks the same to the kind again. -/
theorem coerce_coerce (k : Kind) (w : Value) : k.coerce (k.coerce w) = k.coerce w := by
  cases k with
  | any => cases w <;> rfl
  | text => cases w <;> rfl
  | list => cases w <;> rfl
  | number =>
      cases w with
      | text s =>
          cases hs : readDouble? s with
          | none => simp only [coerce, hs]
          | some d => simp only [coerce, hs]
      | _ => rfl
  | date =>
      cases w with
      | text s =>
          cases hs : Instant.read? s with
          | none => simp only [coerce, hs]
          | some t => simp only [coerce, hs]
      | _ => rfl
  | bool =>
      cases w with
      | text s =>
          cases hs : readBool? s with
          | none => simp only [coerce, hs]
          | some b => simp only [coerce, hs]
      | _ => rfl

/-- Every kind but the list kind leaves what begins with a bracket as it is. -/
theorem coerce_bracket {k : Kind} {s : String} {cs : List Char} (hk : k ≠ .list)
    (h : s.toList = '[' :: cs) : k.coerce (.text s) = .text s := by
  cases k with
  | any => rfl
  | text => rfl
  | number => simp only [coerce, readDouble?_bracket h]
  | date => simp only [coerce, Instant.read?_bracket h]
  | bool => simp only [coerce, readBool?_bracket h]
  | list => exact absurd rfl hk

end Kind

/-- A link begins with a bracket. -/
theorem Vault.link_toList (v : Vault) (d : Document) :
    ∃ cs, (v.link d).toList = '[' :: cs := by
  rw [Vault.link, String.toList_append, String.toList_append]
  exact ⟨_, rfl⟩

/-- Every kind but the list kind leaves a link as it is. -/
theorem Kind.coerce_link {k : Kind} (hk : k ≠ .list) (v : Vault) (d : Document) :
    k.coerce (.text (v.link d)) = .text (v.link d) := by
  obtain ⟨cs, hcs⟩ := v.link_toList d
  exact Kind.coerce_bracket hk hcs

end VaultQuery
