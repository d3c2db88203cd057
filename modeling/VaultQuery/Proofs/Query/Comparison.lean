import VaultQuery.Proofs.Value.Coherence
import VaultQuery.Proofs.Vault.Sample

/-! # Operators of order

    A clause on an attribute tests equality or order. Of a value that stands in order with that
    of the clause exactly one of less, equal and greater is true, and the operators that allow
    equality are true when either of their two parts is.

    * `Operator.holds_of_compare?`: what the operators make of an order;
    * `Operator.holds_of_compare?_eq_none`: what they make of none;
    * `Operator.holds_coherent`: both, for every attribute of every document, and what they rest
      on. -/

namespace VaultQuery

namespace Operator

/-- The operator that asks for an order. -/
def ofOrdering : Ordering → Operator
  | .lt => .lt
  | .eq => .eq
  | .gt => .gt

variable {a : Attribute} {d : Document} {w : Value} {o : Ordering}

/-- What the operators make of the order in which an attribute stands with a value. -/
theorem holds_of_compare? (link : Option String) (h : (a.value d).compare? w = some o) :
    (∀ op ∈ [Operator.gt, .eq, .lt], op.holds a d w link = .ok (op == ofOrdering o)) ∧
      Operator.gte.holds a d w link = .ok (o != .lt) ∧
      Operator.lte.holds a d w link = .ok (o != .gt) := by
  have heq : (a.value d).looseEqual w = (o == .eq) := by
    rw [Bool.eq_iff_iff, beq_iff_eq]
    exact (Value.eq_iff_looseEqual h).symm
  simp only [List.forall_mem_cons, List.not_mem_nil, false_implies, implies_true, and_true, holds,
    holdsFor, h, heq]
  cases o <;> exact ⟨⟨rfl, rfl, rfl⟩, rfl, rfl⟩

/-- Where there is no order no operator of order holds. -/
theorem holds_of_compare?_eq_none (link : Option String) (h : (a.value d).compare? w = none) :
    ∀ op ∈ [Operator.gt, .gte, .lt, .lte], op.holds a d w link = .ok false := by
  simp only [List.forall_mem_cons, List.not_mem_nil, false_implies, implies_true, and_true, holds,
    holdsFor, h]
  exact ⟨rfl, rfl, rfl, rfl⟩

/-- **Equality and order agree.** Equality is the same from both sides, the order from the other
    side is the reverse, and values in order are equal in it exactly when they are loosely equal.
    So for every attribute, document and value of a clause: if the two stand in order, exactly
    one of `gt`, `eq` and `lt` holds, `gte` when `gt` or `eq` does, and `lte` when `lt` or `eq`
    does; if they do not, no operator of order holds. -/
theorem holds_coherent :
    (∀ v w : Value, v.looseEqual w = w.looseEqual v ∧
      v.compare? w = (w.compare? v).map Ordering.swap ∧
      ∀ o, v.compare? w = some o → (o = .eq ↔ v.looseEqual w = true)) ∧
    ∀ (a : Attribute) (d : Document) (w : Value) (link : Option String),
      (((a.value d).compare? w).isSome = true →
        (∃ op ∈ [Operator.gt, .eq, .lt], ∀ op' ∈ [Operator.gt, .eq, .lt],
          op'.holds a d w link = .ok (op' == op)) ∧
        (Operator.gte.holds a d w link = .ok true ↔
          Operator.gt.holds a d w link = .ok true ∨ Operator.eq.holds a d w link = .ok true) ∧
        (Operator.lte.holds a d w link = .ok true ↔
          Operator.lt.holds a d w link = .ok true ∨ Operator.eq.holds a d w link = .ok true)) ∧
      ((a.value d).compare? w = none →
        ∀ op ∈ [Operator.gt, .gte, .lt, .lte], op.holds a d w link = .ok false) := by
  refine ⟨fun v w => ⟨v.looseEqual_comm w, v.compare?_comm w, fun o => Value.eq_iff_looseEqual⟩,
    fun a d w link => ⟨fun hsome => ?_, holds_of_compare?_eq_none link⟩⟩
  obtain ⟨o, ho⟩ := Option.isSome_iff_exists.mp hsome
  obtain ⟨hone, hgte, hlte⟩ := holds_of_compare? link ho
  have hgt := hone .gt (by decide)
  have heq := hone .eq (by decide)
  have hlt := hone .lt (by decide)
  refine ⟨⟨ofOrdering o, ?_, hone⟩, ?_, ?_⟩
  · cases o <;> decide
  · rw [hgte, hgt, heq]
    cases o <;> simp [ofOrdering]
  · rw [hlte, hlt, heq]
    cases o <;> simp [ofOrdering]

/-- An unread book has a later status than `done`, and a status in no order with nothing. -/
theorem holds_coherent_of_dune :
    let status := Attribute.field "status" .any
    ((status.value Sample.dune).compare? (.text "done")).isSome = true ∧
      Operator.gte.holds status Sample.dune (.text "done") none = .ok true ∧
      (status.value Sample.dune).compare? .null = none ∧
      Operator.lte.holds status Sample.dune .null none = .ok false := by
  intro status
  obtain ⟨-, hoperators⟩ := holds_coherent
  have hordered : ((status.value Sample.dune).compare? (.text "done")).isSome = true := rfl
  obtain ⟨-, hgte, -⟩ := (hoperators status Sample.dune (.text "done") none).1 hordered
  exact ⟨hordered, hgte.mpr (Or.inl rfl), rfl,
    (hoperators status Sample.dune .null none).2 rfl .lte (by decide)⟩

end Operator
end VaultQuery
