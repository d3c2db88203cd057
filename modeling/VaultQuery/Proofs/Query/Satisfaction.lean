import VaultQuery.Proofs.Attribute.Coercion
import VaultQuery.Proofs.Query.Conjunction
import VaultQuery.Proofs.Value.Equality

/-! # Which values an operator can be given

    Enforcing writes a value; whether it passes is a matter of the operator and of the value
    asked for, not of what was stored before.

    * `Operator.Passes` is the test on values, with no document around it;
    * `Operator.NeverMet` names the requests that no stored value meets, and
      `Operator.not_passes_of_neverMet` says that indeed none does;
    * `Operator.passes_enforce`: what enforcing writes meets every other request;
    * `Operator.passes_of_union`: adding further items to a list loses nothing. -/

namespace VaultQuery

/-! ## Adding what is missing -/

theorem subset_addMissing (items wanted : List Value) : items ⊆ addMissing items wanted := by
  induction wanted generalizing items with
  | nil => exact fun _ h => h
  | cons v wanted ih =>
      rw [addMissing]
      by_cases hv : hasItem items v = true
      · rw [if_pos hv]
        exact ih items
      · rw [if_neg hv]
        exact fun _ h => ih (items ++ [v]) (List.mem_append.mpr (Or.inl h))

theorem hasItem_of_subset {items more : List Value} {v : Value} (hsub : items ⊆ more)
    (h : hasItem items v = true) : hasItem more v = true := by
  obtain ⟨x, hx, hxv⟩ := List.any_eq_true.mp h
  exact List.any_eq_true.mpr ⟨x, hsub hx, hxv⟩

theorem hasItem_addMissing {items : List Value} {v : Value} (h : hasItem items v = true)
    (wanted : List Value) : hasItem (addMissing items wanted) v = true :=
  hasItem_of_subset (subset_addMissing items wanted) h

/-- What was wanted is there after adding, unless it does not even equal itself. -/
theorem hasItem_addMissing_of_mem {items wanted : List Value} {v : Value} (h : v ∈ wanted)
    (hv : v.hasNaN = false) : hasItem (addMissing items wanted) v = true := by
  induction wanted generalizing items with
  | nil => exact nomatch h
  | cons w wanted ih =>
      -- the first wanted item is there or put there; what comes later only adds
      rw [addMissing]
      rcases List.mem_cons.mp h with rfl | hmem
      · by_cases hhas : hasItem items v = true
        · rw [if_pos hhas]
          exact hasItem_addMissing hhas wanted
        · rw [if_neg hhas]
          refine hasItem_addMissing (List.any_eq_true.mpr ⟨v, ?_, ?_⟩) wanted
          · exact List.mem_append.mpr (Or.inr (List.mem_singleton.mpr rfl))
          · exact (Value.looseEqual_self_iff v).mpr hv
      · by_cases hhas : hasItem items w = true
        · rw [if_pos hhas]
          exact ih hmem
        · rw [if_neg hhas]
          exact ih hmem

/-- A list has nothing in which a NaN occurs. -/
theorem hasNaN_eq_false_of_hasItem {items : List Value} {v : Value} (h : hasItem items v = true) :
    v.hasNaN = false := by
  obtain ⟨x, -, hxv⟩ := List.any_eq_true.mp h
  exact Value.hasNaN_eq_false_of_looseEqual v x hxv

/-- A NaN occurs in a value exactly when it occurs in one of its items. -/
theorem Value.hasNaN_eq_false_iff {w : Value} :
    w.hasNaN = false ↔ ∀ v ∈ w.toItems, v.hasNaN = false := by
  cases w with
  | list items => exact itemsHaveNaN_eq_false_iff
  | null => simp [hasNaN, toItems]
  | _ => simp [toItems]

namespace Operator

/-! ## The test on values -/

/-- The operator adds to a list. -/
def IsUnion (op : Operator) : Prop := op = .hasAll ∨ op = .hasThis

/-- The current value passes the test. -/
def Passes (op : Operator) (link : Option String) (current w : Value) : Prop :=
  match op with
  | .hasThis => ∃ l, link = some l ∧ holdsLink current l = true
  | op => op.holdsFor current w = true

/-- A document passes a test when the attribute's value does. -/
theorem holds_eq_true_iff {op : Operator} {a : Attribute} {d : Document} {w : Value}
    {link : Option String} :
    op.holds a d w link = .ok true ↔ op.Passes link (a.value d) w := by
  cases op with
  | hasThis =>
      cases link with
      | none => simp [holds, thisLink, Except.map, Passes]
      | some l => simp [holds, thisLink, Except.map, Passes]
  | _ => simp [holds, Passes]

/-- No stored value meets the request `w`, the resolved operand `o`, on a field of that kind:
    a NaN equals nothing; nothing, lists and NaNs stand in no order; and a list is neither
    equal to a link nor in order with it. -/
def NeverMet (op : Operator) (o : Operand) (kind : Kind) (w : Value) : Prop :=
  ((op = .eq ∨ op = .hasAll) ∧ w.hasNaN = true) ∨
    ((op = .gte ∨ op = .lte) ∧ w.isUnordered = true) ∨
    ((op = .eq ∨ op = .gte ∨ op = .lte) ∧ o.isDynamic = true ∧ kind = .list)

instance (op : Operator) (o : Operand) (kind : Kind) (w : Value) :
    Decidable (op.NeverMet o kind w) :=
  inferInstanceAs (Decidable (_ ∨ _ ∨ _))

/-- What passes `hasAll` is a list with everything in the value. -/
theorem passes_hasAll_iff {link : Option String} {current w : Value} :
    Passes .hasAll link current w ↔
      ∃ items, current = .list items ∧ ∀ v ∈ w.toItems, hasItem items v = true := by
  show holdsFor .hasAll current w = true ↔ _
  cases current with
  | list items => simp [holdsFor, Value.items?]
  | _ => simp [holdsFor, Value.items?]

/-- What passes `hasThis` is a list with the link. -/
theorem passes_hasThis_iff {link : Option String} {current w : Value} :
    Passes .hasThis link current w ↔
      ∃ l items, link = some l ∧ current = .list items ∧ hasItem items (.text l) = true := by
  show (∃ l, link = some l ∧ holdsLink current l = true) ↔ _
  cases current with
  | list items => simp [holdsLink, Value.items?]
  | _ => simp [holdsLink, Value.items?]

/-- To ask for all of one link is to ask for the link. -/
theorem passes_hasAll_text_iff {link : Option String} {current : Value} {l : String} :
    Passes .hasAll link current (.text l) ↔ holdsLink current l = true := by
  rw [passes_hasAll_iff, holdsLink]
  cases current with
  | list items => simp [Value.items?, Value.toItems]
  | _ => simp [Value.items?]

/-- What passes a bound stands in order with it. -/
theorem exists_compare?_of_passes {op : Operator} {link : Option String} {current w : Value}
    (hop : op = .gte ∨ op = .lte) (h : op.Passes link current w) :
    ∃ o, current.compare? w = some o := by
  cases ho : current.compare? w with
  | some o => exact ⟨o, rfl⟩
  | none =>
      exfalso
      rcases hop with rfl | rfl
      · simp [Passes, holdsFor, ho] at h
      · simp [Passes, holdsFor, ho] at h

/-- A list, or nothing, neither equals a text nor stands in order with it. -/
theorem not_looseEqual_text_of_list (stored : Value) (s : String) :
    (Kind.list.coerce stored).looseEqual (.text s) = false ∧
      (Kind.list.coerce stored).compare? (.text s) = none := by
  rcases Kind.list_coerce_eq stored with h | ⟨items, h⟩
  · rw [h]
    simp [Value.looseEqual, Value.compare?]
  · rw [h]
    simp [Value.looseEqual, Value.compare?]

/-- A request that is never met is not met by any stored value. -/
theorem not_passes_of_neverMet {op : Operator} {a : Attribute} {o : Operand} {w : Value}
    {link : Option String} (hw : o.resolve a link = .ok w) (h : op.NeverMet o a.kind w)
    (stored : Value) : ¬ op.Passes link (a.kind.coerce stored) w := by
  intro hpass
  rcases h with ⟨hop, hnan⟩ | ⟨hop, hun⟩ | ⟨hop, hdyn, hkind⟩
  · have hno : w.hasNaN = false := by
      rcases hop with rfl | rfl
      · exact Value.hasNaN_eq_false_of_looseEqual w _ hpass
      · obtain ⟨items, -, hall⟩ := passes_hasAll_iff.mp hpass
        exact Value.hasNaN_eq_false_iff.mpr fun v hv => hasNaN_eq_false_of_hasItem (hall v hv)
    rw [hno] at hnan
    exact nomatch hnan
  · obtain ⟨ord, hord⟩ := exists_compare?_of_passes hop hpass
    rw [Value.isUnordered_eq_false_of_compare? hord] at hun
    exact nomatch hun
  -- the field is a list, the request the text of a link
  · obtain ⟨s, rfl⟩ : ∃ s, w = .text s := by
      cases o with
      | value _ => exact nomatch hdyn
      | linkToThis =>
          obtain ⟨l, -, hl⟩ := Operand.resolve_linkToThis.mp hw
          exact ⟨l, hl⟩
    rw [hkind] at hpass
    obtain ⟨hne, hno⟩ := not_looseEqual_text_of_list stored s
    rcases hop with rfl | hop
    · have heq : (Kind.list.coerce stored).looseEqual (.text s) = true := hpass
      rw [hne] at heq
      exact nomatch heq
    · obtain ⟨ord, hord⟩ := exists_compare?_of_passes hop hpass
      rw [hno] at hord
      exact nomatch hord

/-! ## What enforcing writes -/

/-- An operator that can be enforced writes a value, if there is a link or it needs none. -/
theorem exists_enforce {op : Operator} {link : Option String} (hop : op.canEnforce = true)
    (hlink : link.isSome = true ∨ op ≠ .hasThis) (key : Key) (current w : Value) :
    ∃ e, op.enforce key current w link = .ok e := by
  cases op with
  | hasThis =>
      rcases hlink with h | h
      · obtain ⟨l, rfl⟩ := Option.isSome_iff_exists.mp h
        exact ⟨_, rfl⟩
      · exact absurd rfl h
  | eq => exact ⟨_, rfl⟩
  | isEmpty => exact ⟨_, rfl⟩
  | hasAll => exact ⟨_, rfl⟩
  | gte => exact ⟨_, rfl⟩
  | lte => exact ⟨_, rfl⟩
  | _ => exact nomatch hop

/-- An operator that adds to a list writes the current items with some more. -/
theorem enforce_union {op : Operator} {key : Key} {current w e : Value}
    {link : Option String} (hop : op.IsUnion) (h : op.enforce key current w link = .ok e) :
    ∃ wanted, e = .list (addMissing (currentItems current) wanted) := by
  rcases hop with rfl | rfl
  · cases h
    exact ⟨_, rfl⟩
  · obtain ⟨l, -, he⟩ := map_eq_ok_iff.mp h
    exact ⟨_, he.symm⟩

/-- **What enforcing writes passes**, for every request that is ever met, if the field's kind
    leaves the request as it is. -/
theorem passes_enforce {op : Operator} {key : Key} {o : Operand} {kind : Kind}
    {current w e : Value} {link : Option String}
    (hkeep : ¬ (o.isDynamic = true ∧ kind = .list) → kind.coerce w = w)
    (hmet : ¬ op.NeverMet o kind w) (h : op.enforce key current w link = .ok e) :
    op.Passes link (kind.coerce e) w := by
  cases op with
  | eq =>
      cases h
      have hnan : w.hasNaN = false :=
        Bool.eq_false_iff.mpr fun hn => hmet (Or.inl ⟨Or.inl rfl, hn⟩)
      rw [hkeep fun hd => hmet (Or.inr (Or.inr ⟨Or.inl rfl, hd⟩))]
      exact (Value.looseEqual_self_iff w).mpr hnan
  | isEmpty =>
      cases h
      rw [Kind.coerce_null]
      rfl
  | hasAll =>
      cases h
      have hnan : w.hasNaN = false :=
        Bool.eq_false_iff.mpr fun hn => hmet (Or.inl ⟨Or.inr rfl, hn⟩)
      rw [Kind.coerce_list]
      refine passes_hasAll_iff.mpr ⟨_, rfl, fun v hv => ?_⟩
      exact hasItem_addMissing_of_mem hv (Value.hasNaN_eq_false_iff.mp hnan v hv)
  | hasThis =>
      obtain ⟨l, hl, rfl⟩ := map_eq_ok_iff.mp h
      have hlink : link = some l := thisLink_eq_ok_iff.mp hl
      rw [Kind.coerce_list]
      refine passes_hasThis_iff.mpr ⟨l, _, hlink, rfl, ?_⟩
      exact hasItem_addMissing_of_mem (List.mem_singleton.mpr rfl) rfl
  | gte =>
      cases h
      have hord : w.isUnordered = false :=
        Bool.eq_false_iff.mpr fun hn => hmet (Or.inr (Or.inl ⟨Or.inl rfl, hn⟩))
      rw [hkeep fun hd => hmet (Or.inr (Or.inr ⟨Or.inr (Or.inl rfl), hd⟩))]
      simp [Passes, holdsFor, Value.compare?_self hord]
  | lte =>
      cases h
      have hord : w.isUnordered = false :=
        Bool.eq_false_iff.mpr fun hn => hmet (Or.inr (Or.inl ⟨Or.inr rfl, hn⟩))
      rw [hkeep fun hd => hmet (Or.inr (Or.inr ⟨Or.inr (Or.inr rfl), hd⟩))]
      simp [Passes, holdsFor, Value.compare?_self hord]
  | _ => exact nomatch h

/-- Adding further items keeps what passes an operator on lists. -/
theorem passes_of_union {op op' : Operator} {key : Key} {kind : Kind}
    {current w w' e : Value} {link : Option String} (hop : op.IsUnion) (hop' : op'.IsUnion)
    (hpass : op.Passes link current w) (h : op'.enforce key current w' link = .ok e) :
    op.Passes link (kind.coerce e) w := by
  obtain ⟨wanted, rfl⟩ := enforce_union hop' h
  rw [Kind.coerce_list]
  rcases hop with rfl | rfl
  · obtain ⟨items, rfl, hall⟩ := passes_hasAll_iff.mp hpass
    refine passes_hasAll_iff.mpr ⟨_, rfl, fun v hv => ?_⟩
    exact hasItem_addMissing (hall v hv) wanted
  · obtain ⟨l, items, hlink, rfl, hhas⟩ := passes_hasThis_iff.mp hpass
    exact passes_hasThis_iff.mpr ⟨l, _, hlink, rfl, hasItem_addMissing hhas wanted⟩

end Operator
end VaultQuery
