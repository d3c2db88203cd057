import VaultQuery.Proofs.Command.Requests
import VaultQuery.Proofs.Vault.Documents

/-! # What requests store

    Enforcing makes the values it stores of those that stand in the vault and those in clauses:
    it sees them as the kind of the field does, takes their items, and adds items to lists. A
    property that survives these steps survives requests. If it holds of all values of the vault
    and of its clauses, it holds of all values afterwards.

    * `StoredProperty`: a property of values, by the kind of their field, that survives these
      steps;
    * `Operator.meets_enforce`, `Query.fieldsMeet_enforceTest`, `Query.fieldsMeet_enforce`: it
      survives enforcing;
    * `Vault.Stores`: it holds of all values of a vault;
    * `Vault.stores_after`, `Vault.stores_afterAll`: it survives requests. -/

namespace VaultQuery

/-- A property of the values of a field that survives what enforcing does to them. Of a list it
    holds if it holds of each item as the only one. -/
structure StoredProperty (P : Kind → Value → Prop) : Prop where
  null : ∀ kind, P kind .null
  text : ∀ kind s, P kind (.text s)
  coerce : ∀ kind x, P kind x → P kind (kind.coerce x)
  toItems : ∀ kind x, P kind x → P kind (.list x.toItems)
  list : ∀ kind items, P kind (.list items) ↔ ∀ x ∈ items, P kind (.list [x])

variable {P : Kind → Value → Prop}

/-! ## Values that enforcing makes -/

/-- What stands in a list after adding was there or was wanted. -/
theorem mem_addMissing {items wanted : List Value} {x : Value}
    (h : x ∈ addMissing items wanted) : x ∈ items ∨ x ∈ wanted := by
  induction wanted generalizing items with
  | nil => exact Or.inl h
  | cons v wanted ih =>
      rw [addMissing] at h
      by_cases hhas : hasItem items v = true
      · rw [if_pos hhas] at h
        exact (ih h).imp_right (List.mem_cons_of_mem v)
      · rw [if_neg hhas] at h
        rcases ih h with hitems | hwanted
        · rcases List.mem_append.mp hitems with hx | hx
          · exact Or.inl hx
          · exact Or.inr (List.mem_singleton.mp hx ▸ List.mem_cons_self ..)
        · exact Or.inr (List.mem_cons_of_mem v hwanted)

/-- What an operator writes is made of the present value and the one asked for. -/
theorem Operator.meets_enforce (hP : StoredProperty P) {op : Operator} {key : Key} {kind : Kind}
    {current w e : Value} {link : Option String} (hcurrent : P kind current) (hw : P kind w)
    (h : op.enforce key current w link = .ok e) : P kind e := by
  have hitems : P kind (.list (currentItems current)) := by
    cases current with
    | list items => exact hcurrent
    | _ => exact (hP.list kind []).mpr fun x hx => absurd hx List.not_mem_nil
  have hlist : ∀ wanted : List Value, P kind (.list wanted) →
      P kind (.list (addMissing (currentItems current) wanted)) := by
    intro wanted hwanted
    refine (hP.list kind _).mpr fun x hx => ?_
    rcases mem_addMissing hx with hx | hx
    · exact (hP.list kind _).mp hitems x hx
    · exact (hP.list kind _).mp hwanted x hx
  cases op with
  | eq =>
      cases h
      exact hw
  | gte =>
      cases h
      exact hw
  | lte =>
      cases h
      exact hw
  | isEmpty =>
      cases h
      exact hP.null kind
  | hasAll =>
      cases h
      exact hlist _ (hP.toItems kind w hw)
  | hasThis =>
      obtain ⟨l, -, rfl⟩ := map_eq_ok_iff.mp h
      exact hlist _ (hP.toItems kind (.text l) (hP.text kind l))
  | _ => cases h

namespace Clause

variable {c : Clause}

/-- The property holds of the value of the clause, whatever field it is for. -/
def Meets (P : Kind → Value → Prop) (c : Clause) : Prop :=
  ∀ w, c.operand = .value w → ∀ kind, P kind w

theorem meets_literal_text (hP : StoredProperty P) (key : String) (op : Operator) (s : String) :
    (literal key op (.text s)).Meets P := by
  intro w hw kind
  have hliteral : Operand.ofLiteral (.text s) = .value w := hw
  rw [Operand.eq_of_ofLiteral hliteral]
  exact hP.text kind s

/-- The operand as the field sees it. -/
theorem meets_of_resolve (hP : StoredProperty P) {name : String} {kind : Kind}
    {link : Option String} {w : Value} (hc : c.Meets P)
    (h : c.operand.resolve (.field name kind) link = .ok w) : P kind w := by
  cases ho : c.operand with
  | value u =>
      rw [ho] at h
      cases h
      exact hP.coerce kind u (hc u ho kind)
  | linkToThis =>
      rw [ho] at h
      obtain ⟨l, -, rfl⟩ := Operand.resolve_linkToThis.mp h
      exact hP.text kind l

end Clause

/-- Clauses that a request makes by itself are about texts and links. -/
theorem Command.meets_of_makes (hP : StoredProperty P) {request : Command} {c : Clause}
    (hspelled : ∀ expression ∈ request.expressions, ∀ c,
      Clause.ofExpression expression = .ok c → c.Meets P)
    (h : request.Makes c) : c.Meets P := by
  rcases h with ⟨expression, hmem, hc⟩ | ⟨key, op, s, rfl⟩ | ho
  · exact hspelled expression hmem c hc
  · exact Clause.meets_literal_text hP key op s
  · intro w hw
    rw [ho] at hw
    cases hw

/-! ## Fields -/

/-- The property holds of every field in the frontmatter, for the kind declared of it. -/
def Vault.FieldsMeet (P : Kind → Value → Prop) (v : Vault) (f : Frontmatter) : Prop :=
  ∀ name x, f.get? name = some x → P (v.kindOf name) x

theorem Vault.fieldsMeet_empty (v : Vault) : v.FieldsMeet P .empty :=
  fun _ _ hx => nomatch hx

namespace Query

variable {v : Vault} {link : Option String} {f f' : Frontmatter}

/-- A test writes a value with the property. -/
theorem fieldsMeet_enforceTest (hP : StoredProperty P) {t : Test} (ht : t.IsReady v)
    (hclause : t.clause.Meets P) (hf : v.FieldsMeet P f)
    (h : enforceTest link f t = .ok f') : v.FieldsMeet P f' := by
  rcases isIntrinsic_or_onField ht with hintrinsic | ⟨name, hname⟩
  · rw [enforceTest_of_isIntrinsic hintrinsic] at h
    cases h
    exact hf
  · obtain ⟨w, e, hw, he, rfl⟩ := (enforceTest_eq_ok_iff ht hname).mp h
    intro n x hx
    rw [Dictionary.get?_insert] at hx
    by_cases hn : name = n
    · subst hn
      rw [if_pos rfl] at hx
      cases hx
      have hcurrent : P (v.kindOf name) (v.fieldValue f name) := by
        refine hP.coerce _ _ ?_
        cases hstored : f.get? name with
        | none => exact hP.null _
        | some u => exact hf name u hstored
      exact Operator.meets_enforce hP hcurrent (Clause.meets_of_resolve hP hclause hw) he
    · rw [if_neg hn] at hx
      exact hf n x hx

/-- So does a run. -/
theorem fieldsMeet_enforceAll (hP : StoredProperty P) {ts : List Test}
    (hts : ∀ t ∈ ts, t.IsReady v ∧ t.clause.Meets P) (hf : v.FieldsMeet P f)
    (h : enforceAll link f ts = .ok f') : v.FieldsMeet P f' := by
  induction ts generalizing f with
  | nil =>
      cases h
      exact hf
  | cons t ts ih =>
      obtain ⟨g, hstep, hrun⟩ := enforceAll_cons_eq_ok_iff.mp h
      obtain ⟨⟨ht, hclause⟩, hts⟩ := List.forall_mem_cons.mp hts
      exact ih hts (fieldsMeet_enforceTest hP ht hclause hf hstep) hrun

theorem fieldsMeet_enforce (hP : StoredProperty P) {s : Settings} {clauses : List Clause}
    {sort : List SortField} {context : Option Document} {q : Query}
    (hq : compile v clauses sort context s = .ok q) (hclauses : ∀ c ∈ clauses, c.Meets P)
    (hf : v.FieldsMeet P f) (h : q.enforce f = .ok f') : v.FieldsMeet P f' := by
  refine fieldsMeet_enforceAll hP (fun t ht => ?_) hf (enforceAll_of_enforce hq h)
  obtain ⟨hready, hmem⟩ := isReady_of_mem_tests hq ht
  exact ⟨hready, hclauses t.clause hmem⟩

end Query

/-! ## Vaults -/

namespace Vault

variable {v : Vault}

/-- The property holds of every field of every document. -/
def Stores (P : Kind → Value → Prop) (v : Vault) : Prop :=
  ∀ d ∈ v.documentList, ∀ f, d.frontmatter = some f → v.FieldsMeet P f

theorem stores_put {n : Document} {f : Frontmatter} (h : v.Stores P)
    (hn : n.frontmatter = some f) (hf : v.FieldsMeet P f) : (v.put n).Stores P := by
  intro d hd g hg
  rcases mem_documentList_put hd with rfl | hd
  · rw [hn] at hg
    cases hg
    exact hf
  · exact h d hd g hg

/-- **A request stores values with the property**, if those of its clauses have it. -/
theorem stores_after (hP : StoredProperty P) (s : Settings) (now : Instant) {request : Command}
    (hspelled : ∀ expression ∈ request.expressions, ∀ c,
      Clause.ofExpression expression = .ok c → c.Meets P)
    (h : v.Stores P) : (v.after s now request).Stores P := by
  rcases v.after_cases s now request with heq | hwrites
  · rw [heq]
    exact h
  · obtain ⟨clauses, context, q, f, n, hclauses, hq, hf, ⟨f', hf', hn⟩, heq⟩ := hwrites
    have hbefore : v.FieldsMeet P f := by
      rcases hf with rfl | ⟨d, hd, hfrontmatter⟩
      · exact v.fieldsMeet_empty
      · exact h d hd f hfrontmatter
    have hmeets : ∀ c ∈ clauses, c.Meets P := fun c hc =>
      Command.meets_of_makes hP hspelled (hclauses c hc)
    rw [heq]
    exact stores_put h hn (Query.fieldsMeet_enforce hP hq hmeets hbefore hf')

/-- **So do requests one after the other.** -/
theorem stores_afterAll (hP : StoredProperty P) (requests : List (Settings × Instant × Command))
    (hspelled : ∀ r ∈ requests, ∀ expression ∈ r.2.2.expressions, ∀ c,
      Clause.ofExpression expression = .ok c → c.Meets P)
    (h : v.Stores P) : (v.afterAll requests).Stores P := by
  induction requests generalizing v with
  | nil => exact h
  | cons r requests ih =>
      obtain ⟨hfirst, hrest⟩ := List.forall_mem_cons.mp hspelled
      exact ih hrest (stores_after hP r.1 r.2.1 hfirst h)

end Vault
end VaultQuery
