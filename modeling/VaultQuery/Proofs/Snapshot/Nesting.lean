import VaultQuery.Proofs.Command.Stored
import VaultQuery.Proofs.Snapshot.Documents

/-! # Vaults that can be read again

    The reader of snapshots and the reader of clauses admit the same nesting, but a value in a
    snapshot stands inside the list of documents, a document and its block already. So a clause
    can bring a value into the vault that is written and not read any more.

    * `Vault.IsReadable`: the snapshot of the vault is read, with the same paths;
    * `Value.depth_le_of_ofWritten?`: no value that was read is nested too deep;
    * `storedProperty_depth`: enforcing nests no deeper than values and clauses do;
    * `Vault.isReadable_afterAll`: a vault that was read and worked on with requests can be read
      again exactly if no value in it is nested too deep, as is the case when no value of a
      clause is. -/

namespace VaultQuery

/-! ## Depth -/

namespace Value

theorem depthOfItems_le_iff {vs : List Value} {limit : Nat} :
    depthOfItems vs ≤ limit ↔ ∀ x ∈ vs, x.depth ≤ limit := by
  induction vs with
  | nil => exact iff_of_true (Nat.zero_le _) fun _ hx => nomatch hx
  | cons v vs ih => rw [depthOfItems, Nat.max_le, ih, List.forall_mem_cons]

theorem depth_list_le_iff {items : List Value} {limit : Nat} :
    (Value.list items).depth ≤ limit + 1 ↔ ∀ x ∈ items, x.depth ≤ limit := by
  rw [depth, Nat.add_le_add_iff_right, depthOfItems_le_iff]

theorem depth_eq_zero {x : Value} (h : x.items? = none) : x.depth = 0 := by
  cases x with
  | list items => cases h
  | _ => rfl

mutual

/-- A value that was read is nested no deeper than the limit. -/
theorem depth_le_of_ofWritten? : ∀ (w : Json.Written) {limit : Nat} {x : Value},
    Value.ofWritten? limit w = some x → x.depth ≤ limit
  | .null, _, _, h => by
      cases h
      exact Nat.zero_le _
  | .bool _, _, _, h => by
      cases h
      exact Nat.zero_le _
  | .number n, _, _, h => by
      rw [Value.ofWritten?, Json.ofWritten?] at h
      obtain ⟨j, hj, hx⟩ := Option.bind_eq_some_iff.mp h
      obtain ⟨y, -, rfl⟩ := Option.map_eq_some_iff.mp hj
      cases y <;> cases hx <;> exact Nat.zero_le _
  | .text raw, _, _, h => by
      rw [Value.ofWritten?, Json.ofWritten?] at h
      obtain ⟨j, hj, hx⟩ := Option.bind_eq_some_iff.mp h
      obtain ⟨s, -, rfl⟩ := Option.map_eq_some_iff.mp hj
      cases hx
      exact Nat.zero_le _
  | .array ws, limit, x, h => by
      rw [ofWritten?_array] at h
      by_cases hlimit : limit = 0
      · rw [if_pos hlimit] at h
        cases h
      · rw [if_neg hlimit] at h
        obtain ⟨items, hitems, rfl⟩ := Option.map_eq_some_iff.mp h
        have hdepth := depthOfItems_le_of_ofItems? ws hitems
        rw [depth]
        omega
  | .object members, limit, _, h => by
      rw [Value.ofWritten?, Json.ofWritten?] at h
      obtain ⟨j, hj, hx⟩ := Option.bind_eq_some_iff.mp h
      split at hj
      · cases hj
      · obtain ⟨ms, -, rfl⟩ := Option.map_eq_some_iff.mp hj
        cases hx

theorem depthOfItems_le_of_ofItems? : ∀ (ws : List Json.Written) {limit : Nat} {xs : List Value},
    (Json.ofItems? limit ws).bind ofJsonItems? = some xs → depthOfItems xs ≤ limit
  | [], _, _, h => by
      cases h
      exact Nat.zero_le _
  | w :: ws, _, _, h => by
      rw [ofItems?_cons_bind] at h
      split at h
      · rename_i x xs hx hxs
        cases h
        exact Nat.max_le.mpr ⟨depth_le_of_ofWritten? w hx, depthOfItems_le_of_ofItems? ws hxs⟩
      · cases h

end

end Value

/-- No kind nests deeper than a list of one item. -/
theorem Kind.depth_coerce_le (kind : Kind) {x : Value} {limit : Nat} (h : x.depth ≤ limit + 1) :
    (kind.coerce x).depth ≤ limit + 1 := by
  have hsees := kind.sees_coerce x
  generalize kind.coerce x = seen at hsees ⊢
  cases hsees with
  | same => exact h
  | list hitems =>
      rw [Value.depth_list_le_iff, List.forall_mem_singleton, Value.depth_eq_zero hitems]
      exact Nat.zero_le _
  | _ => exact Nat.zero_le _

/-- Enforcing nests no deeper than values and clauses do, if lists may be stored at all. -/
theorem storedProperty_depth {limit : Nat} (hlimit : limit ≠ 0) :
    StoredProperty fun _ x => x.depth ≤ limit := by
  obtain ⟨n, rfl⟩ := Nat.exists_eq_succ_of_ne_zero hlimit
  constructor
  case null => exact fun _ => Nat.zero_le _
  case text => exact fun _ _ => Nat.zero_le _
  case coerce => exact fun kind _ hx => kind.depth_coerce_le hx
  case toItems =>
    intro _ x hx
    cases x with
    | null => exact Value.depth_list_le_iff.mpr fun y hy => absurd hy List.not_mem_nil
    | list items => exact hx
    | _ => exact Value.depth_list_le_iff.mpr (List.forall_mem_singleton.mpr (Nat.zero_le _))
  case list =>
    intro _ items
    rw [Value.depth_list_le_iff]
    refine forall₂_congr fun x _ => ?_
    rw [Value.depth_list_le_iff, List.forall_mem_singleton]

/-- How many lists stand inside each other in the value of a clause. -/
def Clause.depth (c : Clause) : Nat := c.operand.literal.depth

/-- No clause of the request has a value nested deeper than the limit. -/
def Command.NestsWithin (limit : Nat) (request : Command) : Prop :=
  ∀ expression ∈ request.expressions, ∀ c, Clause.ofExpression expression = .ok c →
    c.depth ≤ limit

/-! ## Vaults -/

namespace Vault

variable {v loaded : Vault} {now : Instant} {snapshot : String} {kinds : List (String × Kind)}
  {requests : List (Settings × Instant × Command)}

/-- At any time the snapshot of the vault is read, as a vault with the same paths. -/
def IsReadable (v : Vault) : Prop :=
  ∀ now, ∃ saved, ofSnapshot now v.toSnapshot = .ok saved ∧
    saved.documentList.map (·.path) = v.documentList.map (·.path)

/-- A vault can be read again exactly if no value in it is nested too deep. -/
theorem isReadable_iff : v.IsReadable ↔ ∀ x ∈ v.values, x.depth ≤ valueNestingLimit := by
  constructor
  · intro h
    obtain ⟨saved, hread, -⟩ := h Sample.moment
    rw [ofSnapshot_toSnapshot_reread] at hread
    by_contra hdeep
    rw [if_neg hdeep] at hread
    cases hread
  · intro h now
    refine ⟨v.reread, ?_, ?_⟩
    · rw [ofSnapshot_toSnapshot_reread, if_pos h]
    · have hdocuments := documentList_mapValues Value.reread v
      rw [reread, hdocuments, List.map_map]
      rfl

/-- The values of a vault are those of the fields of its documents. -/
theorem forall_mem_values_iff {p : Value → Prop} :
    (∀ x ∈ v.values, p x) ↔ v.Stores fun _ x => p x := by
  constructor
  · intro h d hd f hf name x hx
    exact h x (mem_values hd hf hx)
  · intro h x hx
    obtain ⟨d, hd, hxd⟩ := List.mem_flatMap.mp hx
    rw [Document.values] at hxd
    split at hxd
    · rename_i f hf
      obtain ⟨e, he, rfl⟩ := List.mem_map.mp hxd
      exact h d hd f hf e.1 e.2 (Dictionary.get?_eq_some_iff.mpr he)
    · exact absurd hxd List.not_mem_nil

/-- Requests whose clauses keep within the limit keep the vault within it. -/
theorem depth_le_afterAll (hload : ofSnapshot now snapshot = .ok loaded)
    (hnests : ∀ r ∈ requests, r.2.2.NestsWithin valueNestingLimit) :
    ∀ x ∈ ((loaded.declareAll kinds).afterAll requests).values, x.depth ≤ valueNestingLimit := by
  have hbefore : (loaded.declareAll kinds).Stores fun _ x => x.depth ≤ valueNestingLimit := by
    refine forall_mem_values_iff.mp fun x hx => ?_
    obtain ⟨w, hw⟩ := exists_ofWritten?_of_ofSnapshot hload x hx
    exact Value.depth_le_of_ofWritten? w hw
  have hlimit : valueNestingLimit ≠ 0 := Nat.succ_ne_zero _
  refine forall_mem_values_iff.mpr
    (stores_afterAll (storedProperty_depth hlimit) requests (fun r hr => ?_) hbefore)
  intro expression hmem c hc w hw _
  have hdepth := hnests r hr expression hmem c hc
  rw [Clause.depth, hw] at hdepth
  exact hdepth

/-- **When a vault can be read again.** A vault was read from a snapshot, kinds were declared and
    requests made of it. It can be read again exactly if none of its values is nested deeper than
    the limit of values; and that is so if no value in a clause of a new document was. -/
theorem isReadable_afterAll
    (hload : ofSnapshot now snapshot = .ok loaded)
    (hv : v = (loaded.declareAll kinds).afterAll requests) :
    (v.IsReadable ↔ ∀ x ∈ v.values, x.depth ≤ valueNestingLimit) ∧
      ((∀ r ∈ requests, r.2.2.NestsWithin valueNestingLimit) → v.IsReadable) := by
  refine ⟨isReadable_iff, fun hnests => isReadable_iff.mpr ?_⟩
  rw [hv]
  exact depth_le_afterAll hload hnests

/-! ## Lists inside each other -/

theorem ofExpression_nested (n : Nat) :
    Clause.ofExpression (Sample.nested n)
      = .ok (.literal "a" .eq (Value.ofLiteral (String.ofList (Sample.brackets n)))) := by
  have hname : Clause.IsKeyName "a" :=
    ⟨by decide, Text.trimmed_of_all (by decide), by decide⟩
  exact Clause.ofExpression_full hname .eq (String.ofList (Sample.brackets n))

theorem ofLiteral_brackets (n : Nat) :
    Value.ofLiteral (String.ofList (Sample.brackets n))
      = ((Json.Written.read? (Sample.brackets n)).bind (Json.ofWritten? Json.nestingLimit)).elim
        (.text (String.ofList (Sample.brackets n))) Value.ofAnyJson := by
  rw [Value.ofLiteral, Json.read?, String.toList_ofList]
  cases (Json.Written.read? (Sample.brackets n)).bind (Json.ofWritten? Json.nestingLimit) with
  | none => rfl
  | some j => rfl

theorem afterAll_nesting (n : Nat) :
    (empty.declareAll []).afterAll (Sample.nesting n)
      = ((newDocument (empty.declareAll []) .default Sample.moment
          [.literal "a" .eq (Value.ofLiteral (String.ofList (Sample.brackets n)))] none
          "A").toOption.map Prod.fst).getD (empty.declareAll []) := by
  have hcollect : collect Clause.ofExpression [Sample.nested n]
      = .ok [.literal "a" .eq (Value.ofLiteral (String.ofList (Sample.brackets n)))] := by
    rw [collect, ofExpression_nested]
    rfl
  rw [Sample.nesting, afterAll, List.foldl_cons, List.foldl_nil, after, Command.perform, hcollect,
    Except.bind]
  cases newDocument (empty.declareAll []) .default Sample.moment
    [.literal "a" .eq (Value.ofLiteral (String.ofList (Sample.brackets n)))] none "A" with
  | error e => rfl
  | ok p => rfl

/-- A document with as many lists inside each other as the limit is read again. -/
theorem isReadable_afterAll_of_nested :
    ∃ loaded v, ofSnapshot Sample.moment "[]" = .ok loaded ∧
      v = (loaded.declareAll []).afterAll (Sample.nesting 124) ∧
      v.documentList.map (·.path) = ["A.md"] ∧ v.IsReadable := by
  obtain ⟨v, hv⟩ : ∃ v, v = (empty.declareAll []).afterAll (Sample.nesting 124) := ⟨_, rfl⟩
  have hload : ofSnapshot Sample.moment "[]" = .ok .empty := rfl
  have hpaths : v.documentList.map (·.path) = ["A.md"] := by
    rw [hv, afterAll_nesting, ofLiteral_brackets]
    decide +kernel
  have hdepth : (Clause.literal "a" .eq (Value.ofLiteral (String.ofList
      (Sample.brackets 124)))).depth = 124 := by
    rw [ofLiteral_brackets]
    decide +kernel
  have hnests : ∀ r ∈ Sample.nesting 124, r.2.2.NestsWithin valueNestingLimit := by
    refine List.forall_mem_singleton.mpr (List.forall_mem_singleton.mpr fun c hc => ?_)
    rw [ofExpression_nested] at hc
    cases hc
    exact Nat.le_of_eq hdepth
  exact ⟨.empty, v, hload, hv, hpaths, (isReadable_afterAll hload hv).2 hnests⟩

/-- A document with one list more is created, and the vault with it is not read any more. -/
theorem not_isReadable_of_nested :
    ∃ loaded v, ofSnapshot Sample.moment "[]" = .ok loaded ∧
      v = (loaded.declareAll []).afterAll (Sample.nesting 125) ∧
      v.documentList.map (·.path) = ["A.md"] ∧
      ofSnapshot Sample.moment v.toSnapshot = .error .badSnapshot := by
  obtain ⟨v, hv⟩ : ∃ v, v = (empty.declareAll []).afterAll (Sample.nesting 125) := ⟨_, rfl⟩
  have hpaths : v.documentList.map (·.path) = ["A.md"] := by
    rw [hv, afterAll_nesting, ofLiteral_brackets]
    decide +kernel
  have hdepths : v.values.map Value.depth = [125] := by
    rw [hv, afterAll_nesting, ofLiteral_brackets]
    decide +kernel
  have hdeep : ¬ ∀ x ∈ v.values, x.depth ≤ valueNestingLimit := by
    intro hall
    have hle : ∀ n ∈ v.values.map Value.depth, n ≤ valueNestingLimit :=
      List.forall_mem_map.mpr hall
    rw [hdepths] at hle
    exact absurd (hle 125 (List.mem_singleton.mpr rfl)) (by decide)
  refine ⟨.empty, v, rfl, hv, hpaths, ?_⟩
  rw [ofSnapshot_toSnapshot_reread, if_neg hdeep]

end Vault
end VaultQuery
