import VaultQuery.Proofs.Query.Satisfaction
import VaultQuery.Proofs.Vault.Sample

/-! # Enforcing a query makes a document pass it

    Tests are enforced one after the other on the same frontmatter. Each writes a value that
    passes it; the question is whether later tests leave it so. They do if every field is
    written by one test only, or by tests that only add to a list.

    * `Query.enforceTest_eq_ok_iff`: what one test writes;
    * `Clause.MetBy`: frontmatter passes a clause;
    * `Query.metBy_enforceTest`, `Query.metBy_of_enforceTest`: a step meets its own clause and
      keeps the others met;
    * `Query.metBy_enforceAll`, `Query.metBy_enforceAll_of_mem`: so does a run;
    * `Query.fieldValue_enforceAll`: with one test for each field, what a run leaves there;
    * `Query.accepts_enforce_iff`: any frontmatter can be enforced, and a document with the
      result passes exactly when no clause is one that nothing meets. -/

namespace VaultQuery

/-- The value of a field in frontmatter as the declared kind of the field sees it. -/
def Vault.fieldValue (v : Vault) (f : Frontmatter) (name : String) : Value :=
  (v.kindOf name).coerce ((f.get? name).getD .null)

theorem Vault.fieldValue_insert_self (v : Vault) (f : Frontmatter) (name : String)
    (e : Value) : v.fieldValue (f.insert name e) name = (v.kindOf name).coerce e := by
  rw [fieldValue, Dictionary.get?_insert_self]
  rfl

theorem Vault.fieldValue_insert_of_ne (v : Vault) (f : Frontmatter) {name n : String}
    (e : Value) (h : name ≠ n) : v.fieldValue (f.insert name e) n = v.fieldValue f n := by
  rw [fieldValue, Dictionary.get?_insert_of_ne f e h]
  rfl

namespace Clause

/-- The clause is on this field, and the field can be read. -/
def OnField (c : Clause) (name : String) : Prop :=
  c.key = .field name ∧ isReserved name = false

/-- Frontmatter passes a clause on a field. -/
def MetBy (v : Vault) (link : Option String) (f : Frontmatter) (c : Clause) : Prop :=
  ∃ name w, c.OnField name ∧
    c.operand.resolve (.field name (v.kindOf name)) link = .ok w ∧
    c.op.Passes link (v.fieldValue f name) w

/-- No value of the field meets the clause: its resolved operand is a request that is never
    met. -/
def NeverMet (v : Vault) (link : Option String) (c : Clause) : Prop :=
  ∃ a w, v.resolve c.key = .ok a ∧ c.operand.resolve a link = .ok w ∧
    c.op.NeverMet c.operand a.kind w

/-- Both clauses may be enforced on one field: either they are on different fields, or both
    add to a list. -/
def Compatible (c c' : Clause) : Prop := c.key = c'.key → c.op.IsUnion ∧ c'.op.IsUnion

variable {v : Vault} {link : Option String} {c : Clause} {name : String}

/-- A readable field resolves to itself with its declared kind. -/
theorem OnField.resolve (h : c.OnField name) :
    v.resolve c.key = .ok (.field name (v.kindOf name)) := by
  rw [h.1]
  exact v.resolve_field h.2

/-- A document passes a clause on a field exactly when its frontmatter does. -/
theorem passes_iff_metBy {d : Document} {f : Frontmatter} (hc : c.OnField name)
    (hd : d.frontmatter = some f) : c.Passes v link d ↔ c.MetBy v link f := by
  have hvalue : (Attribute.field name (v.kindOf name)).value d = v.fieldValue f name := by
    rw [Attribute.value, Document.field?_of_some hd, Vault.fieldValue]
  constructor
  · rintro ⟨-, a, w, ha, hw, hholds⟩
    cases (OnField.resolve hc).symm.trans ha
    refine ⟨name, w, hc, hw, ?_⟩
    rw [← hvalue]
    exact Operator.holds_eq_true_iff.mp hholds
  · rintro ⟨name', w, hc', hw, hpass⟩
    cases hc.1.symm.trans hc'.1
    refine ⟨fun _ => by rw [hd]; rfl, _, w, OnField.resolve hc, hw, ?_⟩
    rw [Operator.holds_eq_true_iff, hvalue]
    exact hpass

theorem not_metBy_of_neverMet (h : c.NeverMet v link) (f : Frontmatter) :
    ¬ c.MetBy v link f := by
  rintro ⟨name, w, hc, hw, hpass⟩
  obtain ⟨a, w', ha, hw', hnever⟩ := h
  cases (OnField.resolve hc).symm.trans ha
  cases hw.symm.trans hw'
  exact Operator.not_passes_of_neverMet hw hnever _ hpass

end Clause

/-- A resolved operand looks the same through the kind of its attribute, unless it is a link
    and the kind that of lists. -/
theorem Operand.coerce_resolve {v : Vault} {context : Option Document} {o : Operand}
    {a : Attribute} {w : Value} (h : o.resolve a (context.map v.link) = .ok w)
    (hlist : ¬ (o.isDynamic = true ∧ a.kind = .list)) : a.kind.coerce w = w := by
  cases o with
  | value u =>
      cases h
      exact Kind.coerce_coerce a.kind u
  | linkToThis =>
      have hkind : a.kind ≠ .list := fun hk => hlist ⟨rfl, hk⟩
      obtain ⟨l, hl, rfl⟩ := Operand.resolve_linkToThis.mp h
      obtain ⟨d, -, rfl⟩ := Option.map_eq_some_iff.mp hl
      exact Kind.coerce_link hkind v d

/-- The test is its clause made ready for the vault. -/
def Test.IsReady (v : Vault) (t : Test) : Prop := ofClause v t.clause = .ok t

namespace Query

/-! ## One step -/

section Step

variable {v : Vault} {link : Option String} {f f' : Frontmatter} {t t' : Test} {name : String}

/-- What one test on a field writes: the value its operator makes of the field's present
    value and the resolved operand. -/
theorem enforceTest_eq_ok_iff (ht : t.IsReady v) (hc : t.clause.OnField name) :
    enforceTest link f t = .ok f' ↔
      ∃ w e, t.clause.operand.resolve (.field name (v.kindOf name)) link = .ok w ∧
        t.clause.op.enforce (.field name) (v.fieldValue f name) w link = .ok e ∧
        f' = f.insert name e := by
  obtain ⟨-, ha, hvalue⟩ := Test.spec_ofClause ht
  have hsubject : t.subject = .field name (v.kindOf name) :=
    Except.ok.inj (ha.symm.trans hc.resolve)
  rw [enforceTest, hc.1]
  simp only [hvalue, hsubject]
  cases hw : t.clause.operand.resolve (.field name (v.kindOf name)) link with
  | error e => simp
  | ok w =>
      simp only [map_eq_ok_iff, Except.ok.injEq]
      constructor
      · rintro ⟨e, he, rfl⟩
        exact ⟨w, e, rfl, he, rfl⟩
      · rintro ⟨_, e, rfl, he, rfl⟩
        exact ⟨e, he, rfl⟩

/-- One test on a field can be enforced if its operator can, and a link is there if it needs
    one. -/
theorem exists_enforceTest (ht : t.IsReady v) (hc : t.clause.OnField name)
    (hop : t.clause.op.canEnforce = true)
    (hlink : link.isSome = true ∨ ¬ t.clause.NeedsLink) (f : Frontmatter) :
    ∃ f', enforceTest link f t = .ok f' := by
  obtain ⟨hoperand, hthis⟩ := Clause.isSome_or_of_not_needsLink hlink
  obtain ⟨w, hw⟩ := Operand.exists_resolve hoperand (.field name (v.kindOf name))
  obtain ⟨e, he⟩ := Operator.exists_enforce hop hthis (.field name) (v.fieldValue f name) w
  exact ⟨f.insert name e, (enforceTest_eq_ok_iff ht hc).mpr ⟨w, e, hw, he, rfl⟩⟩

/-- A step meets its own clause, unless nothing does. -/
theorem metBy_enforceTest {context : Option Document} (ht : t.IsReady v)
    (hc : t.clause.OnField name) (hmet : ¬ t.clause.NeverMet v (context.map v.link))
    (h : enforceTest (context.map v.link) f t = .ok f') :
    t.clause.MetBy v (context.map v.link) f' := by
  obtain ⟨w, e, hw, he, rfl⟩ := (enforceTest_eq_ok_iff ht hc).mp h
  refine ⟨name, w, hc, hw, ?_⟩
  rw [Vault.fieldValue_insert_self]
  -- the operand looks the same through the kind, as it must when it is read back
  refine Operator.passes_enforce (o := t.clause.operand) (Operand.coerce_resolve hw) ?_ he
  intro hnever
  exact hmet ⟨_, w, hc.resolve, hw, hnever⟩

/-- A step keeps met what is compatible with it. -/
theorem metBy_of_enforceTest {c : Clause} (ht : t.IsReady v) (hc : t.clause.OnField name)
    (hcompatible : c.Compatible t.clause) (hmet : c.MetBy v link f)
    (h : enforceTest link f t = .ok f') : c.MetBy v link f' := by
  obtain ⟨w', e, hw', he, rfl⟩ := (enforceTest_eq_ok_iff ht hc).mp h
  obtain ⟨n, w, hn, hw, hpass⟩ := hmet
  refine ⟨n, w, hn, hw, ?_⟩
  by_cases hname : name = n
  -- the same field: both operators only add to a list
  · subst hname
    obtain ⟨hop, hop'⟩ := hcompatible (hn.1.trans hc.1.symm)
    rw [Vault.fieldValue_insert_self]
    exact Operator.passes_of_union hop hop' hpass he
  · rw [Vault.fieldValue_insert_of_ne v f e hname]
    exact hpass

/-- A test of an intrinsic attribute writes nothing. -/
theorem enforceTest_of_isIntrinsic (h : t.clause.key.isIntrinsic = true) :
    enforceTest link f t = .ok f := by
  cases hkey : t.clause.key with
  | intrinsic i => rw [enforceTest, hkey]
  | field name =>
      rw [hkey] at h
      exact nomatch h

/-- Every other test that is ready is on a field. -/
theorem isIntrinsic_or_onField (ht : t.IsReady v) :
    t.clause.key.isIntrinsic = true ∨ ∃ name, t.clause.OnField name := by
  obtain ⟨-, ha, -⟩ := Test.spec_ofClause ht
  cases hkey : t.clause.key with
  | intrinsic i => exact Or.inl rfl
  | field name => exact Or.inr ⟨name, hkey, Vault.isReserved_eq_false_of_resolve (hkey ▸ ha)⟩

end Step

/-! ## A run -/

section Run

variable {v : Vault} {link : Option String}

/-- Tests that can be enforced one by one can be enforced one after the other. -/
theorem exists_enforceAll {ts : List Test}
    (h : ∀ t ∈ ts, ∀ f, ∃ f', enforceTest link f t = .ok f') (f : Frontmatter) :
    ∃ f', enforceAll link f ts = .ok f' := by
  induction ts generalizing f with
  | nil => exact ⟨f, rfl⟩
  | cons t ts ih =>
      obtain ⟨ht, hts⟩ := List.forall_mem_cons.mp h
      obtain ⟨f', hf'⟩ := ht f
      rw [enforceAll, hf']
      exact ih hts f'

theorem enforceAll_cons_eq_ok_iff {t : Test} {ts : List Test} {f f' : Frontmatter} :
    enforceAll link f (t :: ts) = .ok f' ↔
      ∃ g, enforceTest link f t = .ok g ∧ enforceAll link g ts = .ok f' := by
  rw [enforceAll]
  cases ht : enforceTest link f t with
  | error e => simp
  | ok g => simp

/-- A run leaves alone the fields that none of its tests is on. -/
theorem fieldValue_enforceAll_of_ne {ts : List Test} {f f' : Frontmatter} {name : String}
    (hready : ∀ t ∈ ts, t.IsReady v ∧ ∃ n, t.clause.OnField n)
    (hne : ∀ t ∈ ts, t.clause.key ≠ .field name) (h : enforceAll link f ts = .ok f') :
    v.fieldValue f' name = v.fieldValue f name := by
  induction ts generalizing f with
  | nil =>
      cases h
      rfl
  | cons t ts ih =>
      obtain ⟨g, hstep, hrun⟩ := enforceAll_cons_eq_ok_iff.mp h
      obtain ⟨⟨ht, n, hc⟩, hrest⟩ := List.forall_mem_cons.mp hready
      obtain ⟨htne, hne⟩ := List.forall_mem_cons.mp hne
      obtain ⟨_, e, -, -, rfl⟩ := (enforceTest_eq_ok_iff ht hc).mp hstep
      rw [ih hrest hne hrun]
      refine Vault.fieldValue_insert_of_ne v f e fun heq => htne ?_
      rw [hc.1, heq]

/-- With one test for each field, a run leaves in a field what its test makes of the first
    value. -/
theorem fieldValue_enforceAll {ts : List Test} {f f' : Frontmatter} {t : Test}
    {name : String} (hready : ∀ t ∈ ts, t.IsReady v ∧ ∃ n, t.clause.OnField n)
    (hdistinct : ts.Pairwise fun t t' => t.clause.key ≠ t'.clause.key)
    (h : enforceAll link f ts = .ok f') (ht : t ∈ ts) (hname : t.clause.OnField name) :
    ∃ w e, t.clause.operand.resolve (.field name (v.kindOf name)) link = .ok w ∧
      t.clause.op.enforce (.field name) (v.fieldValue f name) w link = .ok e ∧
      v.fieldValue f' name = (v.kindOf name).coerce e := by
  induction ts generalizing f with
  | nil => exact nomatch ht
  | cons u ts ih =>
      obtain ⟨g, hstep, hrun⟩ := enforceAll_cons_eq_ok_iff.mp h
      obtain ⟨⟨hu, n, hn⟩, hrest⟩ := List.forall_mem_cons.mp hready
      obtain ⟨hne, hdistinct⟩ := List.pairwise_cons.mp hdistinct
      rcases List.mem_cons.mp ht with rfl | ht
      -- this is the test, and the rest of the run is on other fields
      · obtain ⟨w, e, hw, he, rfl⟩ := (enforceTest_eq_ok_iff hu hname).mp hstep
        refine ⟨w, e, hw, he, ?_⟩
        rw [fieldValue_enforceAll_of_ne hrest ?_ hrun, Vault.fieldValue_insert_self]
        intro t' ht' heq
        exact hne t' ht' (hname.1.trans heq.symm)
      -- the test comes later, and this step is on another field
      · obtain ⟨_, e, -, -, rfl⟩ := (enforceTest_eq_ok_iff hu hn).mp hstep
        have hother : n ≠ name := by
          intro heq
          refine hne t ht ?_
          rw [hn.1, hname.1, heq]
        rw [← Vault.fieldValue_insert_of_ne v f e hother]
        exact ih hrest hdistinct hrun ht

/-- A run keeps met what is compatible with each of its tests. -/
theorem metBy_of_enforceAll {c : Clause} {ts : List Test} {f f' : Frontmatter}
    (hready : ∀ t ∈ ts, t.IsReady v) (hcompatible : ∀ t ∈ ts, c.Compatible t.clause)
    (hmet : c.MetBy v link f) (h : enforceAll link f ts = .ok f') : c.MetBy v link f' := by
  induction ts generalizing f with
  | nil =>
      cases h
      exact hmet
  | cons t ts ih =>
      obtain ⟨g, hstep, hrun⟩ := enforceAll_cons_eq_ok_iff.mp h
      obtain ⟨ht, hrest⟩ := List.forall_mem_cons.mp hready
      obtain ⟨hct, hcompatible⟩ := List.forall_mem_cons.mp hcompatible
      -- the invariant is that the clause is met: the first step keeps it, then the rest does
      refine ih hrest hcompatible ?_ hrun
      rcases isIntrinsic_or_onField ht with hintrinsic | ⟨name, hc⟩
      · cases (enforceTest_of_isIntrinsic hintrinsic).symm.trans hstep
        exact hmet
      · exact metBy_of_enforceTest ht hc hct hmet hstep

/-- A run meets the clause of a test that is compatible with all of its tests, unless nothing
    meets it. -/
theorem metBy_enforceAll_of_mem {context : Option Document} {ts : List Test} {t : Test}
    {f f' : Frontmatter} {name : String} (hready : ∀ t ∈ ts, t.IsReady v)
    (hcompatible : ∀ u ∈ ts, t.clause.Compatible u.clause) (ht : t ∈ ts)
    (hc : t.clause.OnField name) (hmet : ¬ t.clause.NeverMet v (context.map v.link))
    (h : enforceAll (context.map v.link) f ts = .ok f') :
    t.clause.MetBy v (context.map v.link) f' := by
  induction ts generalizing f with
  | nil => exact nomatch ht
  | cons u ts ih =>
      obtain ⟨g, hstep, hrun⟩ := enforceAll_cons_eq_ok_iff.mp h
      obtain ⟨hu, hrest⟩ := List.forall_mem_cons.mp hready
      obtain ⟨-, hlater⟩ := List.forall_mem_cons.mp hcompatible
      rcases List.mem_cons.mp ht with heq | ht
      · subst heq
        exact metBy_of_enforceAll hrest hlater (metBy_enforceTest hu hc hmet hstep) hrun
      · exact ih hrest hlater ht hrun

/-- A run of compatible tests meets every clause that anything meets. -/
theorem metBy_enforceAll {context : Option Document} {ts : List Test} {f f' : Frontmatter}
    (hready : ∀ t ∈ ts, t.IsReady v ∧ ∃ name, t.clause.OnField name)
    (hcompatible : ts.Pairwise fun t t' => t.clause.Compatible t'.clause)
    (h : enforceAll (context.map v.link) f ts = .ok f') :
    ∀ t ∈ ts, ¬ t.clause.NeverMet v (context.map v.link) →
      t.clause.MetBy v (context.map v.link) f' := by
  induction ts generalizing f with
  | nil => exact fun _ ht => nomatch ht
  | cons t ts ih =>
      intro u hu hmet
      obtain ⟨g, hstep, hrun⟩ := enforceAll_cons_eq_ok_iff.mp h
      obtain ⟨⟨ht, name, hc⟩, hrest⟩ := List.forall_mem_cons.mp hready
      obtain ⟨hct, hpairs⟩ := List.pairwise_cons.mp hcompatible
      -- a clause is met by its own step, and from then on it is kept
      rcases List.mem_cons.mp hu with heq | hu
      · subst heq
        exact metBy_of_enforceAll (fun t ht => (hrest t ht).1) hct
          (metBy_enforceTest ht hc hmet hstep) hrun
      · exact ih hrest hpairs hrun u hu hmet

end Run

/-! ## A query -/

section Compiled

variable {v : Vault} {s : Settings} {context : Option Document} {sort : List SortField}
  {clauses : List Clause} {q : Query}

/-- The tests of a query are ready. -/
theorem isReady_of_mem_tests (h : compile v clauses sort context s = .ok q) {t : Test}
    (ht : t ∈ q.tests) : t.IsReady v ∧ t.clause ∈ clauses := by
  obtain ⟨c, hc, hct⟩ := (mem_tests h).mp ht
  have hclause : t.clause = c := (Test.spec_ofClause hct).1
  exact ⟨by rw [Test.IsReady, hclause, hct], hclause ▸ hc⟩

/-- The tests of clauses on fields are ready, and on fields. -/
theorem isReady_tests (h : compile v clauses sort context s = .ok q)
    (hfields : ∀ c ∈ clauses, ∃ name, c.OnField name) :
    ∀ t ∈ q.tests, t.IsReady v ∧ ∃ name, t.clause.OnField name := by
  intro t ht
  obtain ⟨hready, hmem⟩ := isReady_of_mem_tests h ht
  exact ⟨hready, hfields t.clause hmem⟩

theorem exists_test_of_mem (h : compile v clauses sort context s = .ok q) {c : Clause}
    (hc : c ∈ clauses) : ∃ t ∈ q.tests, t.clause = c := by
  have hmem : c ∈ q.clauses := (clauses_perm h).mem_iff.mpr hc
  exact List.mem_map.mp hmem

/-- Clauses that are compatible stay so in the order of their weights. -/
theorem pairwise_compatible_tests (h : compile v clauses sort context s = .ok q)
    (hcompatible : clauses.Pairwise Clause.Compatible) :
    q.tests.Pairwise fun t t' => t.clause.Compatible t'.clause := by
  have hsymm : ∀ {c c' : Clause}, c.Compatible c' → c'.Compatible c :=
    fun hcc hkey => (hcc hkey.symm).symm
  have hperm : q.clauses.Pairwise Clause.Compatible :=
    hcompatible.perm (clauses_perm h).symm hsymm
  exact List.pairwise_map.mp hperm

/-- Without an operator that cannot be enforced, enforcing a query is enforcing its tests. -/
theorem enforce_eq_enforceAll (h : compile v clauses sort context s = .ok q)
    (hops : ∀ c ∈ clauses, c.op.canEnforce = true) (f : Frontmatter) :
    q.enforce f = enforceAll (context.map v.link) f q.tests := by
  have hnone : q.clauses.find? (!·.op.canEnforce) = none := by
    rw [List.find?_eq_none]
    intro c hc
    simp [hops c ((clauses_perm h).mem_iff.mp hc)]
  rw [enforce, hnone, contextLink_eq h]

/-- What was enforced is the result of a run of the tests. -/
theorem enforceAll_of_enforce (h : compile v clauses sort context s = .ok q)
    {f f' : Frontmatter} (henforce : q.enforce f = .ok f') :
    enforceAll (context.map v.link) f q.tests = .ok f' := by
  rw [enforce] at henforce
  cases hfind : q.clauses.find? (!·.op.canEnforce) with
  | some c =>
      rw [hfind] at henforce
      exact nomatch henforce
  | none =>
      rw [hfind, contextLink_eq h] at henforce
      exact henforce

/-- Clauses on readable fields whose operators can be enforced, with a context if one of them
    needs it, can be enforced on any frontmatter. -/
theorem exists_enforce (h : compile v clauses sort context s = .ok q)
    (hfields : ∀ c ∈ clauses, ∃ name, c.OnField name)
    (hops : ∀ c ∈ clauses, c.op.canEnforce = true)
    (hlink : ∀ c ∈ clauses, c.NeedsLink → context.isSome = true) (f : Frontmatter) :
    ∃ f', q.enforce f = .ok f' := by
  rw [enforce_eq_enforceAll h hops]
  refine exists_enforceAll ?_ f
  intro t ht
  obtain ⟨hready, hmem⟩ := isReady_of_mem_tests h ht
  obtain ⟨name, hname⟩ := hfields t.clause hmem
  refine exists_enforceTest hready hname (hops t.clause hmem) ?_
  by_cases hneeds : t.clause.NeedsLink
  · rw [Option.isSome_map]
    exact Or.inl (hlink t.clause hmem hneeds)
  · exact Or.inr hneeds

/-- Enforced frontmatter meets every clause that anything meets, if the clauses are
    compatible. -/
theorem metBy_of_enforce (h : compile v clauses sort context s = .ok q)
    (hfields : ∀ c ∈ clauses, ∃ name, c.OnField name)
    (hops : ∀ c ∈ clauses, c.op.canEnforce = true)
    (hcompatible : clauses.Pairwise Clause.Compatible) {f f' : Frontmatter}
    (henforce : q.enforce f = .ok f') {c : Clause} (hc : c ∈ clauses)
    (hmet : ¬ c.NeverMet v (context.map v.link)) : c.MetBy v (context.map v.link) f' := by
  rw [enforce_eq_enforceAll h hops] at henforce
  obtain ⟨t, ht, rfl⟩ := exists_test_of_mem h hc
  exact metBy_enforceAll (isReady_tests h hfields) (pairwise_compatible_tests h hcompatible)
    henforce t ht hmet

/-- A document with enforced frontmatter passes exactly when no clause is one that nothing
    meets. -/
theorem accepts_of_enforce_iff (h : compile v clauses sort context s = .ok q)
    (hfields : ∀ c ∈ clauses, ∃ name, c.OnField name)
    (hops : ∀ c ∈ clauses, c.op.canEnforce = true)
    (hcompatible : clauses.Pairwise Clause.Compatible) {f f' : Frontmatter}
    (henforce : q.enforce f = .ok f') {d : Document} (hd : d.frontmatter = some f') :
    q.accepts d = .ok true ↔ ∀ c ∈ clauses, ¬ c.NeverMet v (context.map v.link) := by
  rw [accepts_eq_true_iff h]
  constructor
  · intro hpass c hc hnever
    obtain ⟨name, hname⟩ := hfields c hc
    have hmet := (Clause.passes_iff_metBy hname hd).mp (hpass c hc)
    exact Clause.not_metBy_of_neverMet hnever f' hmet
  · intro hmet c hc
    obtain ⟨name, hname⟩ := hfields c hc
    exact (Clause.passes_iff_metBy hname hd).mpr
      (metBy_of_enforce h hfields hops hcompatible henforce hc (hmet c hc))

/-- **Enforcing satisfiable clauses makes a document pass them, and only then.** On readable
    fields, with operators that can be enforced, a context where one is needed, and several
    clauses on one field only if all of them add to a list, any frontmatter can be enforced;
    a document with the result passes exactly when no clause is one that nothing meets. -/
theorem accepts_enforce_iff (s : Settings)
    (hfields : ∀ c ∈ clauses, ∃ name, c.OnField name)
    (hsort : ∀ field ∈ sort, ∃ a, v.resolve field.key = .ok a)
    (hops : ∀ c ∈ clauses, c.op.canEnforce = true)
    (hcompatible : clauses.Pairwise Clause.Compatible)
    (hlink : ∀ c ∈ clauses, c.NeedsLink → context.isSome = true) :
    ∃ q, compile v clauses sort context s = .ok q ∧
      ∀ f, ∃ f', q.enforce f = .ok f' ∧
        ∀ d : Document, d.frontmatter = some f' →
          (q.acceptsAny (some d) = .ok true ↔
            ∀ c ∈ clauses, ¬ c.NeverMet v (context.map v.link)) := by
  have hkeys : ∀ c ∈ clauses, ∃ a, v.resolve c.key = .ok a := by
    intro c hc
    obtain ⟨name, hname⟩ := hfields c hc
    exact ⟨_, hname.resolve⟩
  obtain ⟨q, h⟩ := exists_compile_iff.mpr ⟨hkeys, hsort⟩
  refine ⟨q, h, fun f => ?_⟩
  obtain ⟨f', hf'⟩ := exists_enforce h hfields hops hlink f
  exact ⟨f', hf', fun d hd => accepts_of_enforce_iff h hfields hops hcompatible hf' hd⟩

/-- A book put on two lists by two clauses on one field. -/
theorem accepts_enforce_iff_of_lists :
    ∃ q f', compile Sample.library Sample.booksOnLists [] (some Sample.readingList) .default
        = .ok q ∧
      q.enforce .empty = .ok f' ∧
      q.acceptsAny (some ⟨"books/Emma.md", Sample.moment, Sample.moment, some f'⟩)
        = .ok true := by
  have hlist : Sample.library.kindOf "collection" = .list := by decide +kernel
  have htext : Sample.library.kindOf "type" = .any := by decide +kernel
  have hcollection : isReserved "collection" = false := by decide
  have htype : isReserved "type" = false := by decide
  have hfields : ∀ c ∈ Sample.booksOnLists, ∃ name, c.OnField name := by
    intro c hc
    simp only [Sample.booksOnLists, List.mem_cons, List.not_mem_nil, or_false] at hc
    rcases hc with rfl | rfl | rfl
    · exact ⟨_, rfl, hcollection⟩
    · exact ⟨_, rfl, hcollection⟩
    · exact ⟨_, rfl, htype⟩
  have hcompatible : Sample.booksOnLists.Pairwise Clause.Compatible := by
    simp [Sample.booksOnLists, Clause.Compatible, Operator.IsUnion]
  have hmet : ∀ c ∈ Sample.booksOnLists,
      ¬ c.NeverMet Sample.library (some (Sample.library.link Sample.readingList)) := by
    rintro c hc ⟨a, w, ha, hw, hnever⟩
    simp only [Sample.booksOnLists, List.mem_cons, List.not_mem_nil, or_false] at hc
    rcases hc with rfl | rfl | rfl
    · rw [Vault.resolve_field _ hcollection, hlist] at ha
      cases ha
      cases hw
      exact absurd hnever (by decide)
    · rw [Vault.resolve_field _ hcollection, hlist] at ha
      cases ha
      cases hw
      exact absurd hnever (by decide)
    · rw [Vault.resolve_field _ htype, htext] at ha
      cases ha
      cases hw
      exact absurd hnever (by decide)
  have hsort : ∀ field ∈ ([] : List SortField),
      ∃ a, Sample.library.resolve field.key = .ok a := fun _ h => nomatch h
  have hlink : ∀ c ∈ Sample.booksOnLists,
      c.NeedsLink → (some Sample.readingList).isSome = true := fun _ _ _ => rfl
  obtain ⟨q, h, henforce⟩ :=
    accepts_enforce_iff .default hfields hsort (by decide) hcompatible hlink
  obtain ⟨f', hf', haccepts⟩ := henforce .empty
  exact ⟨q, f', h, hf', (haccepts _ rfl).mpr hmet⟩

end Compiled

end Query
end VaultQuery
