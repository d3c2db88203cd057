import VaultQuery.Proofs.Command.Stored
import VaultQuery.Proofs.Snapshot.Documents
import VaultQuery.Proofs.Value.Readers

/-! # Where dates are stored

    Texts of files and clauses spell no dates; only the kind of a field makes one of them. So a
    vault that was read from a snapshot, and worked on with requests, has dates in fields that
    are declared as dates and nowhere else.

    * `Value.dateless_ofLiteral`, `Kind.dateless_coerce`: where dates do not come from;
    * `storedProperty_dateless`: so what is enforced is without dates in other fields;
    * `Vault.DatesDeclared`: the invariant, and `Vault.datesDeclared_afterAll`: requests keep it;
    * `Vault.dateless_of_ofSnapshot`: it holds of what is read from a snapshot. -/

namespace VaultQuery

/-! ## Values without dates -/

namespace Value

theorem dateless_list_iff {items : List Value} :
    (Value.list items).Dateless ↔ ∀ x ∈ items, x.Dateless := by
  have hscalars : ∀ vs : List Value, scalarsOfItems vs = vs.flatMap scalars := by
    intro vs
    induction vs with
    | nil => rfl
    | cons v vs ih => rw [scalarsOfItems, ih, List.flatMap_cons]
  simp only [Dateless, scalars, hscalars, List.mem_flatMap, not_exists, not_and]
  constructor
  · intro h x hx t ht
    exact h t x hx ht
  · intro h t x hx ht
    exact h x hx t ht

theorem dateless_null : Dateless .null := by
  intro t ht
  cases List.mem_singleton.mp ht

theorem dateless_text (s : String) : Dateless (.text s) := by
  intro t ht
  cases List.mem_singleton.mp ht

mutual

theorem dateless_ofAnyJson : ∀ j : Json, (ofAnyJson j).Dateless
  | .null => dateless_null
  | .bool _ => fun _ ht => by cases List.mem_singleton.mp ht
  | .integer _ => fun _ ht => by cases List.mem_singleton.mp ht
  | .real _ => fun _ ht => by cases List.mem_singleton.mp ht
  | .text s => dateless_text s
  | .array items => dateless_list_iff.mpr (dateless_ofAnyJsonItems items)
  | .object _ => dateless_text _

theorem dateless_ofAnyJsonItems : ∀ (js : List Json), ∀ x ∈ ofAnyJsonItems js, x.Dateless
  | [] => fun _ hx => nomatch hx
  | j :: js => by
      intro x hx
      rcases List.mem_cons.mp hx with rfl | hx
      · exact dateless_ofAnyJson j
      · exact dateless_ofAnyJsonItems js x hx

end

/-- No text spells a date. -/
theorem dateless_ofLiteral (s : String) : (ofLiteral s).Dateless := by
  rw [ofLiteral]
  split
  · exact dateless_ofAnyJson _
  · exact dateless_text s

/-- No value of a file has a date. -/
theorem dateless_of_ofWritten? {limit : Nat} {w : Json.Written} {x : Value}
    (h : Value.ofWritten? limit w = some x) : x.Dateless := by
  obtain ⟨j, -, hj⟩ := Option.bind_eq_some_iff.mp h
  rw [eq_ofAnyJson hj]
  exact dateless_ofAnyJson j

end Value

/-- Only the kind of dates makes dates. -/
theorem Kind.dateless_coerce {kind : Kind} (hkind : kind ≠ .date) {x : Value}
    (h : x.Dateless) : (kind.coerce x).Dateless := by
  have hsees := kind.sees_coerce x
  generalize kind.coerce x = seen at hsees ⊢
  cases hsees with
  | same => exact h
  | text => exact Value.dateless_text _
  | list => exact Value.dateless_list_iff.mpr (List.forall_mem_singleton.mpr h)
  | number => exact fun t ht => by cases List.mem_singleton.mp ht
  | date => exact absurd rfl hkind
  | bool => exact fun t ht => by cases List.mem_singleton.mp ht

/-! ## Clauses -/

/-- Clauses spell no dates. -/
theorem Clause.dateless_of_ofExpression {expression : String} {c : Clause} {w : Value}
    (h : ofExpression expression = .ok c) (hw : c.operand = .value w) : w.Dateless := by
  rcases operand_of_ofExpression h hw with rfl | ⟨s, rfl⟩
  · exact Value.dateless_null
  · exact Value.dateless_ofLiteral s

/-! ## Fields declared as dates -/

/-- A field that is not declared as a date keeps clear of dates whatever is enforced. -/
theorem storedProperty_dateless : StoredProperty fun kind x => kind ≠ .date → x.Dateless where
  null _ _ := Value.dateless_null
  text _ s _ := Value.dateless_text s
  coerce _ _ hx hkind := Kind.dateless_coerce hkind (hx hkind)
  toItems _ x hx hkind := by
    cases x with
    | null => exact Value.dateless_list_iff.mpr fun y hy => absurd hy List.not_mem_nil
    | list items => exact hx hkind
    | _ => exact Value.dateless_list_iff.mpr (List.forall_mem_singleton.mpr (hx hkind))
  list kind items := by
    constructor
    · intro h x hx hkind
      have hitem := Value.dateless_list_iff.mp (h hkind) x hx
      exact Value.dateless_list_iff.mpr (List.forall_mem_singleton.mpr hitem)
    · intro h hkind
      refine Value.dateless_list_iff.mpr fun x hx => ?_
      exact Value.dateless_list_iff.mp (h x hx hkind) x (List.mem_singleton.mpr rfl)

/-- Of the fields in the frontmatter only those declared as dates have dates. -/
def Vault.DatesOnDateFields (v : Vault) (f : Frontmatter) : Prop :=
  ∀ name x, f.get? name = some x → v.kindOf name ≠ .date → x.Dateless

namespace Vault

variable {v v' : Vault}

/-- Dates are stored in fields that are declared as dates, and nowhere else. -/
def DatesDeclared (v : Vault) : Prop :=
  ∀ d ∈ v.documentList, ∀ f, d.frontmatter = some f → v.DatesOnDateFields f

/-- A vault without dates stores none in the wrong place, whatever kinds are declared. -/
theorem datesDeclared_of_dateless (h : ∀ x ∈ v.values, x.Dateless)
    (kinds : List (String × Kind)) : (v.declareAll kinds).DatesDeclared := by
  intro d hd f hf name x hx _
  exact h x (mem_values hd hf hx)

/-- **Requests keep dates in the fields that are declared for them.** -/
theorem datesDeclared_afterAll (requests : List (Settings × Instant × Command))
    (h : v.DatesDeclared) : (v.afterAll requests).DatesDeclared := by
  refine stores_afterAll storedProperty_dateless requests (fun r _ expression _ c hc => ?_) h
  intro w hw _ _
  exact Clause.dateless_of_ofExpression hc hw

end Vault

/-- **A vault read from a snapshot has no dates.** -/
theorem Vault.dateless_of_ofSnapshot {now : Instant} {s : String} {v : Vault}
    (h : ofSnapshot now s = .ok v) : ∀ x ∈ v.values, x.Dateless := by
  intro x hx
  obtain ⟨w, hw⟩ := exists_ofWritten?_of_ofSnapshot h x hx
  exact Value.dateless_of_ofWritten? hw

end VaultQuery
