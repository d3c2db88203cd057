import VaultQuery.Proofs.Dictionary.Writes
import VaultQuery.Proofs.Query.Enforcement

/-! # What enforcing changes

    What a clause does to its field is settled before the field is looked at: a value takes the
    place of what is there, or wanted items are put behind those that are there. So it depends
    on the clauses alone whether enforcing fails, and on each field alone what it leaves there.

    * `Effect`: what a clause does to a value, and `Operator.enforce_eq_map_effect`: enforcing
      an operator is this;
    * `Clause.changes`: the changes some clauses make, and `Query.enforce_eq_map_changes`: to
      enforce a query is to make its changes, whatever the frontmatter;
    * `Vault.get?_amendAll`: what a run of changes leaves in a field;
    * `Effect.applyAll_extend`: additions one after the other are one addition. -/

namespace VaultQuery

/-! ## One value -/

/-- What enforcing a clause does to the value of its field. -/
inductive Effect where
  /-- The value takes the place of what is there. -/
  | replace (v : Value)
  /-- What is missing of the wanted values is put behind the items that are there. -/
  | extend (wanted : List Value)

namespace Effect

/-- The value after the effect. -/
def apply : Effect → Value → Value
  | .replace v, _ => v
  | .extend wanted, current => .list (addMissing (currentItems current) wanted)

/-- What is stored in a field of a kind after one effect. -/
def store (k : Kind) (stored : Option Value) (e : Effect) : Option Value :=
  some (e.apply (k.coerce (stored.getD .null)))

/-- What is stored in a field of a kind after some effects. -/
def applyAll (k : Kind) (stored : Option Value) (es : List Effect) : Option Value :=
  es.foldl (store k) stored

/-- What enforcing makes of a field that some effects are on is there. -/
theorem isSome_applyAll {k : Kind} {stored : Option Value} {es : List Effect} (h : es ≠ []) :
    (applyAll k stored es).isSome = true := by
  induction es generalizing stored with
  | nil => exact absurd rfl h
  | cons e es ih =>
      cases es with
      | nil => rfl
      | cons e' es => exact ih (List.cons_ne_nil e' es)

/-- Effects that put no value in place are additions. -/
theorem exists_eq_map_extend {es : List Effect} (h : ∀ w, .replace w ∉ es) :
    ∃ wanted : List (List Value), es = wanted.map .extend := by
  induction es with
  | nil => exact ⟨[], rfl⟩
  | cons e es ih =>
      cases e with
      | replace w => exact absurd (List.mem_cons_self ..) (h w)
      | extend ws =>
          obtain ⟨wanted, rfl⟩ := ih fun w hw => h w (List.mem_cons_of_mem _ hw)
          exact ⟨ws :: wanted, rfl⟩

end Effect

/-- Values wanted in two goes are wanted in one. -/
theorem addMissing_append (items wanted more : List Value) :
    addMissing items (wanted ++ more) = addMissing (addMissing items wanted) more := by
  induction wanted generalizing items with
  | nil => rfl
  | cons v wanted ih =>
      rw [List.cons_append, addMissing, addMissing]
      by_cases hv : hasItem items v = true
      · rw [if_pos hv, if_pos hv, ih]
      · rw [if_neg hv, if_neg hv, ih]

/-- **Additions one after the other are one addition** of all that is wanted. -/
theorem Effect.applyAll_extend {k : Kind} {stored : Option Value} {wanted : List (List Value)}
    (h : wanted ≠ []) :
    applyAll k stored (wanted.map .extend)
      = some (.list (addMissing (currentItems (k.coerce (stored.getD .null)))
          wanted.flatten)) := by
  induction wanted generalizing stored with
  | nil => exact absurd rfl h
  | cons ws wanted ih =>
      show applyAll k (store k stored (.extend ws)) (wanted.map .extend) = _
      cases wanted with
      | nil => simp [applyAll, store, apply]
      | cons vs wanted =>
          -- the first addition leaves a list, which is one for every kind
          have hfirst : currentItems (k.coerce ((store k stored (.extend ws)).getD .null))
              = addMissing (currentItems (k.coerce (stored.getD .null))) ws := by
            simp [store, apply, currentItems, Value.items?]
          rw [ih (List.cons_ne_nil vs wanted), hfirst, ← addMissing_append]
          rfl

/-! ## One clause -/

/-- What enforcing an operator with a resolved operand does. -/
def Operator.effect (op : Operator) (key : Key) (w : Value) (link : Option String) :
    Except Failure Effect :=
  match op with
  | .eq | .gte | .lte => .ok (.replace w)
  | .isEmpty => .ok (.replace .null)
  | .hasAll => .ok (.extend w.toItems)
  | .hasThis => (thisLink link key).map fun l => .extend [.text l]
  | op => .error (.notCreatable op.name)

/-- Enforcing an operator has its effect on the current value. -/
theorem Operator.enforce_eq_map_effect (op : Operator) (key : Key) (current w : Value)
    (link : Option String) :
    op.enforce key current w link = (op.effect key w link).map (·.apply current) := by
  cases op with
  | hasThis => cases link <;> rfl
  | _ => rfl

/-- What an operator that adds to a list wants there. -/
theorem Operator.effect_eq_extend_iff {op : Operator} {key : Key} {w : Value}
    {link : Option String} {wanted : List Value} :
    op.effect key w link = .ok (.extend wanted) ↔
      (op = .hasAll ∧ wanted = w.toItems) ∨
        op = .hasThis ∧ ∃ l, link = some l ∧ wanted = [.text l] := by
  cases op with
  | hasThis => cases link <;> simp [effect, thisLink, Except.map, eq_comm]
  | _ => simp [effect, eq_comm]

/-- Only such operators extend what is there. -/
theorem Operator.isUnion_iff_of_effect {op : Operator} {key : Key} {w : Value}
    {link : Option String} {e : Effect} (h : op.effect key w link = .ok e) :
    op.IsUnion ↔ ∃ wanted, e = .extend wanted := by
  cases op with
  | hasAll =>
      cases h
      exact iff_of_true (Or.inl rfl) ⟨_, rfl⟩
  | hasThis =>
      obtain ⟨l, -, rfl⟩ := map_eq_ok_iff.mp h
      exact iff_of_true (Or.inr rfl) ⟨_, rfl⟩
  | eq => cases h; simp [IsUnion]
  | isEmpty => cases h; simp [IsUnion]
  | gte => cases h; simp [IsUnion]
  | lte => cases h; simp [IsUnion]
  | _ => cases h

/-- What is not intrinsic is the field of its name. -/
theorem Key.field_name {key : Key} (h : key.isIntrinsic = false) : .field key.name = key := by
  cases key with
  | intrinsic i => cases h
  | field n => rfl

/-- A field and what is done to it. -/
structure Change where
  field : String
  effect : Effect

namespace Clause

/-- What enforcing a clause does to its field. -/
def effect (v : Vault) (link : Option String) (c : Clause) : Except Failure Effect := do
  let a ← v.resolve c.key
  let w ← c.operand.resolve a link
  c.op.effect a.key w link

/-- The change that enforcing a clause makes. -/
def change (v : Vault) (link : Option String) (c : Clause) : Except Failure Change :=
  (c.effect v link).map fun e => ⟨c.key.name, e⟩

/-- The clauses on fields. -/
def onFields (clauses : List Clause) : List Clause := clauses.filter (!·.key.isIntrinsic)

/-- The changes that enforcing clauses one after the other makes. An operator that cannot be
    enforced is a failure before anything else. -/
def changes (v : Vault) (link : Option String) (clauses : List Clause) :
    Except Failure (List Change) :=
  match clauses.find? (!·.op.canEnforce) with
  | some c => .error (.notCreatable c.op.name)
  | none => collect (change v link) (onFields clauses)

variable {v : Vault} {link : Option String} {c : Clause} {clauses : List Clause}
  {name : String} {xs : List Change}

theorem mem_onFields : c ∈ onFields clauses ↔ c ∈ clauses ∧ c.key.isIntrinsic = false := by
  simp [onFields]

/-- On a readable field an operand resolves before the operator has its effect. -/
theorem OnField.effect_eq (hc : c.OnField name) :
    c.effect v link = (c.operand.resolve (.field name (v.kindOf name)) link).bind
      fun w => c.op.effect (.field name) w link := by
  rw [effect, hc.resolve]
  rfl

/-- Where all operators can be enforced, there is a change for each clause on a field. -/
theorem changes_eq_collect (h : ∀ c ∈ clauses, c.op.canEnforce = true) :
    changes v link clauses = collect (change v link) (onFields clauses) := by
  have hnone : clauses.find? (!·.op.canEnforce) = none := by
    simpa using h
  rw [changes, hnone]

/-- Otherwise an operator is refused. -/
theorem exists_changes_eq_notCreatable (h : ¬ ∀ c ∈ clauses, c.op.canEnforce = true) :
    ∃ name, changes v link clauses = .error (.notCreatable name) := by
  obtain ⟨c, hc⟩ : ∃ c, clauses.find? (!·.op.canEnforce) = some c := by
    rw [← Option.isSome_iff_exists, List.find?_isSome]
    simpa using h
  exact ⟨c.op.name, by rw [changes, hc]⟩

/-- Changes are made when all operators can be enforced, one for each clause on a field. -/
theorem changes_eq_ok_iff : changes v link clauses = .ok xs ↔
    (∀ c ∈ clauses, c.op.canEnforce = true) ∧
      (onFields clauses).map (change v link) = xs.map .ok := by
  by_cases hops : ∀ c ∈ clauses, c.op.canEnforce = true
  · rw [changes_eq_collect hops, and_iff_right hops]
    exact collect_eq_ok_iff
  · obtain ⟨name, hname⟩ : ∃ name, changes v link clauses = .error (.notCreatable name) :=
      exists_changes_eq_notCreatable hops
    rw [hname]
    exact iff_of_false (by simp) fun h => hops h.1

/-- Changes are to the fields of their clauses, in their order. -/
theorem map_field (h : clauses.map (change v link) = xs.map .ok) :
    xs.map (·.field) = clauses.map (·.key.name) := by
  induction clauses generalizing xs with
  | nil =>
      cases xs with
      | nil => rfl
      | cons x xs => exact nomatch h
  | cons c clauses ih =>
      cases xs with
      | nil => exact nomatch h
      | cons x xs =>
          rw [List.map_cons, List.map_cons, List.cons.injEq] at h
          obtain ⟨e, -, rfl⟩ := map_eq_ok_iff.mp h.1
          rw [List.map_cons, List.map_cons, ih h.2]

end Clause

/-- Frontmatter after a change. -/
def Vault.amend (v : Vault) (f : Frontmatter) (x : Change) : Frontmatter :=
  f.insert x.field (x.effect.apply (v.fieldValue f x.field))

/-- Frontmatter after some changes. -/
def Vault.amendAll (v : Vault) (f : Frontmatter) (xs : List Change) : Frontmatter :=
  xs.foldl v.amend f

/-- The effects on one field. -/
def effectsOn (name : String) (xs : List Change) : List Effect :=
  (xs.filter (·.field = name)).map (·.effect)

/-- **What changes leave in a field** are their effects on what was there. -/
theorem Vault.get?_amendAll (v : Vault) (f : Frontmatter) (xs : List Change) (name : String) :
    (v.amendAll f xs).get? name
      = Effect.applyAll (v.kindOf name) (f.get? name) (effectsOn name xs) := by
  induction xs generalizing f with
  | nil => rfl
  | cons x xs ih =>
      show (v.amendAll (v.amend f x) xs).get? name = _
      rw [ih, effectsOn, effectsOn, List.filter_cons]
      by_cases hx : x.field = name
      · rw [if_pos (decide_eq_true hx), amend, hx, Dictionary.get?_insert_self]
        rfl
      · rw [if_neg (by simp [hx]), amend, Dictionary.get?_insert_of_ne _ _ hx]

/-- The effects on a field are those of the clauses on it. -/
theorem mem_effectsOn {v : Vault} {link : Option String} {clauses : List Clause}
    {xs : List Change} {name : String} {e : Effect}
    (h : Clause.changes v link clauses = .ok xs) :
    e ∈ effectsOn name xs ↔
      ∃ c ∈ clauses, c.key = .field name ∧ c.effect v link = .ok e := by
  obtain ⟨-, hmap⟩ := Clause.changes_eq_ok_iff.mp h
  have hmem : ∀ x, x ∈ xs ↔ ∃ c ∈ Clause.onFields clauses, c.change v link = .ok x := by
    intro x
    exact mem_collect (collect_eq_ok_iff.mpr hmap)
  simp only [effectsOn, List.mem_map, List.mem_filter, decide_eq_true_eq, hmem,
    Clause.mem_onFields, Clause.change, map_eq_ok_iff]
  constructor
  · rintro ⟨x, ⟨⟨c, ⟨hc, hfield⟩, e', he, rfl⟩, hname⟩, rfl⟩
    refine ⟨c, hc, ?_, he⟩
    rw [← Key.field_name hfield]
    exact congrArg Key.field hname
  · rintro ⟨c, hc, hkey, he⟩
    refine ⟨⟨name, e⟩, ⟨⟨c, ⟨hc, ?_⟩, e, he, ?_⟩, rfl⟩, rfl⟩
    · rw [hkey]
      rfl
    · rw [hkey]
      rfl

/-- There is an effect on every field that a clause is on. -/
theorem exists_mem_effectsOn {v : Vault} {link : Option String} {clauses : List Clause}
    {xs : List Change} {name : String} (h : Clause.changes v link clauses = .ok xs)
    (hclause : ∃ c ∈ clauses, c.key = .field name) : ∃ e, e ∈ effectsOn name xs := by
  obtain ⟨c, hc, hkey⟩ := hclause
  have hfield : c ∈ Clause.onFields clauses := by
    refine Clause.mem_onFields.mpr ⟨hc, ?_⟩
    rw [hkey]
    rfl
  have hchanges := collect_eq_ok_iff.mpr (Clause.changes_eq_ok_iff.mp h).2
  obtain ⟨x, hx⟩ := exists_collect_iff.mp ⟨xs, hchanges⟩ c hfield
  obtain ⟨e, he, -⟩ := map_eq_ok_iff.mp hx
  exact ⟨e, (mem_effectsOn h).mpr ⟨c, hc, hkey, he⟩⟩

namespace Query

variable {v : Vault} {link : Option String} {s : Settings} {context : Option Document}
  {sort : List SortField} {clauses : List Clause} {q : Query} {t : Test} {name : String}

/-- A test on a field makes the change of its clause. -/
theorem enforceTest_eq_map_change (ht : t.IsReady v) (hc : t.clause.OnField name)
    (f : Frontmatter) :
    enforceTest link f t = (t.clause.change v link).map (v.amend f) := by
  obtain ⟨-, ha, hvalue⟩ := Test.spec_ofClause ht
  have hsubject : t.subject = .field name (v.kindOf name) :=
    Except.ok.inj (ha.symm.trans hc.resolve)
  rw [enforceTest, Clause.change, hc.effect_eq, hc.1]
  simp only [hvalue, hsubject, Operator.enforce_eq_map_effect]
  cases t.clause.operand.resolve (.field name (v.kindOf name)) link with
  | error e => rfl
  | ok w =>
      show Except.map _ (Except.map _ (t.clause.op.effect (.field name) w link))
        = Except.map _ (Except.map _ (t.clause.op.effect (.field name) w link))
      cases t.clause.op.effect (.field name) w link <;> rfl

/-- Tests one after the other make the changes of their clauses, or fail as these do. -/
theorem enforceAll_eq_map_collect {ts : List Test} (hready : ∀ t ∈ ts, t.IsReady v)
    (f : Frontmatter) :
    enforceAll link f ts
      = (collect (Clause.change v link) (Clause.onFields (ts.map (·.clause)))).map
          (v.amendAll f) := by
  induction ts generalizing f with
  | nil => rfl
  | cons t ts ih =>
      obtain ⟨ht, hts⟩ := List.forall_mem_cons.mp hready
      rw [enforceAll, List.map_cons, Clause.onFields, List.filter_cons]
      rcases isIntrinsic_or_onField ht with hintrinsic | ⟨name, hc⟩
      · rw [enforceTest_of_isIntrinsic hintrinsic, if_neg (by simp [hintrinsic])]
        exact ih hts f
      · have hfield : t.clause.key.isIntrinsic = false := by
          rw [hc.1]
          rfl
        rw [if_pos (by simp [hfield]), collect, enforceTest_eq_map_change ht hc]
        cases t.clause.change v link with
        | error e => rfl
        | ok x =>
            show enforceAll link (v.amend f x) ts = _
            rw [ih hts]
            show _ = Except.map _ (Except.map _ (collect _ (Clause.onFields _)))
            cases collect (Clause.change v link) (Clause.onFields (ts.map (·.clause))) <;> rfl

/-- **To enforce a query is to make the changes of its clauses**, in the order in which they
    are tried; whether that fails does not depend on the frontmatter. -/
theorem enforce_eq_map_changes (h : compile v clauses sort context s = .ok q)
    (f : Frontmatter) :
    q.enforce f = (Clause.changes v (context.map v.link) q.clauses).map (v.amendAll f) := by
  rw [enforce, Clause.changes]
  cases q.clauses.find? (!·.op.canEnforce) with
  | some c => rfl
  | none =>
      rw [contextLink_eq h]
      exact enforceAll_eq_map_collect (fun t ht => (isReady_of_mem_tests h ht).1) f

/-- **The fields that a clause is on hold something afterwards**, and no others change. -/
theorem get?_of_enforce (h : compile v clauses sort context s = .ok q) {f f' : Frontmatter}
    (henforce : q.enforce f = .ok f') (name : String) :
    ((∀ c ∈ clauses, c.key ≠ .field name) → f'.get? name = f.get? name) ∧
      ((∃ c ∈ clauses, c.key = .field name) → ∃ x, f'.get? name = some x) := by
  rw [enforce_eq_map_changes h] at henforce
  obtain ⟨xs, hxs, rfl⟩ := map_eq_ok_iff.mp henforce
  have hperm : ∀ c, c ∈ q.clauses ↔ c ∈ clauses := fun c => (clauses_perm h).mem_iff
  rw [Vault.get?_amendAll]
  constructor
  · intro hother
    have hnone : effectsOn name xs = [] := by
      refine List.eq_nil_iff_forall_not_mem.mpr fun e he => ?_
      obtain ⟨c, hc, hkey, -⟩ := (mem_effectsOn hxs).mp he
      exact hother c ((hperm c).mp hc) hkey
    rw [hnone]
    rfl
  · rintro ⟨c, hc, hkey⟩
    obtain ⟨e, he⟩ := exists_mem_effectsOn hxs ⟨c, (hperm c).mpr hc, hkey⟩
    exact Option.isSome_iff_exists.mp (Effect.isSome_applyAll (List.ne_nil_of_mem he))

end Query
end VaultQuery
