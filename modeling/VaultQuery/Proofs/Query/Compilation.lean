import VaultQuery.Proofs.Failure.Steps

/-! # What compilation makes of clauses

    Compiling reorders the clauses, resolves their keys and coerces their values up front.
    None of this is seen from outside:

    * `Query.compile_eq_ok_iff` lists the parts of a compiled query;
    * `Test.spec_ofClause`: a test made ready has the value its clause would resolve to;
    * `Query.mem_tests`: the tests are those of the clauses, in whatever order;
    * `Query.exists_compile_iff`: compilation fails only at a key that names nothing. -/

namespace VaultQuery

/-- A field resolves to itself with its declared kind, unless its name is reserved. -/
theorem Vault.resolve_field (v : Vault) {name : String} (h : isReserved name = false) :
    v.resolve (.field name) = .ok (.field name (v.kindOf name)) := by
  rw [Vault.resolve, h]
  rfl

/-- A name that is not reserved names a field. -/
theorem Key.ofName_of_not_reserved {name : String} (h : isReserved name = false) :
    Key.ofName name = .field name := by
  have hnone : Intrinsic.ofName? name = none := by
    rw [Intrinsic.ofName?, List.find?_eq_none]
    intro i _ hname
    -- the names of intrinsic attributes begin with two underscores
    have hreserved : isReserved i.name = true := by cases i <;> decide
    rw [eq_of_beq hname, h] at hreserved
    exact nomatch hreserved
  rw [Key.ofName, hnone]

/-- A field that resolves has no reserved name. -/
theorem Vault.isReserved_eq_false_of_resolve {v : Vault} {name : String} {a : Attribute}
    (h : v.resolve (.field name) = .ok a) : isReserved name = false := by
  cases hr : isReserved name with
  | false => rfl
  | true =>
      rw [Vault.resolve, hr] at h
      exact nomatch h

namespace Test

variable {v : Vault} {c : Clause} {t : Test}

/-- A clause is made ready exactly when its key names an attribute. -/
theorem exists_ofClause_iff : (∃ t, ofClause v c = .ok t) ↔ ∃ a, v.resolve c.key = .ok a := by
  exact exists_map_eq_ok_iff

/-- A test made ready keeps its clause, and coercing the value up front is resolving it
    later. -/
theorem spec_ofClause (h : ofClause v c = .ok t) :
    t.clause = c ∧ v.resolve c.key = .ok t.subject ∧
      ∀ link, t.value link = c.operand.resolve t.subject link := by
  obtain ⟨a, ha, rfl⟩ := map_eq_ok_iff.mp h
  refine ⟨rfl, ha, ?_⟩
  intro link
  cases ho : c.operand with
  | value w => rfl
  | linkToThis => simp only [value, ho]

theorem ofClause_congr {v' : Vault} (h : ∀ key, v'.resolve key = v.resolve key) :
    ofClause v' = ofClause v := by
  funext clause
  rw [ofClause, ofClause, h]

/-- Tests made ready one after the other keep their clauses in order. -/
theorem map_clause {cs : List Clause} {ts : List Test}
    (h : cs.map (ofClause v) = ts.map .ok) : ts.map (·.clause) = cs := by
  induction cs generalizing ts with
  | nil =>
      cases ts with
      | nil => rfl
      | cons t ts => exact nomatch h
  | cons c cs ih =>
      cases ts with
      | nil => exact nomatch h
      | cons t ts =>
          rw [List.map_cons, List.map_cons, List.cons.injEq] at h
          rw [List.map_cons, ih h.2, (spec_ofClause h.1).1]

end Test

namespace Query

variable {v : Vault} {s : Settings} {context : Option Document} {sort : List SortField}
  {clauses : List Clause} {q : Query}

/-- The parts of a compiled query. -/
theorem compile_eq_ok_iff :
    compile v clauses sort context s = .ok q ↔
      collect (Test.ofClause v) (inOrderOfWeight clauses) = .ok q.tests ∧
        collect (resolveSortField v) sort.reverse = .ok q.sortFields ∧
        q.context = context ∧ q.contextLink = context.map v.link ∧ q.settings = s := by
  rw [compile]
  cases hts : collect (Test.ofClause v) (inOrderOfWeight clauses) with
  | error e => simp
  | ok tests =>
      simp only [map_eq_ok_iff, Except.ok.injEq]
      constructor
      · rintro ⟨fields, hfs, rfl⟩
        exact ⟨rfl, hfs, rfl, rfl, rfl⟩
      · obtain ⟨tests', context', link', fields', settings'⟩ := q
        rintro ⟨hts', hfs, hcontext, hlink, hs⟩
        refine ⟨fields', hfs, ?_⟩
        simp only at hts' hcontext hlink hs
        rw [hts', hcontext, hlink, hs]

theorem resolveSortField_congr {v' : Vault} (h : ∀ key, v'.resolve key = v.resolve key) :
    resolveSortField v' = resolveSortField v := by
  funext field
  rw [resolveSortField, resolveSortField, h]

/-- Compilation sees of a vault what its keys stand for and the context's link. -/
theorem compile_congr {v' : Vault} (hresolve : ∀ key, v'.resolve key = v.resolve key)
    (hlink : context.map v'.link = context.map v.link) :
    compile v' clauses sort context s = compile v clauses sort context s := by
  rw [compile, compile, Test.ofClause_congr hresolve, resolveSortField_congr hresolve, hlink]

/-- A query of one clause has its test alone. -/
theorem compile_singleton (v : Vault) (c : Clause) (context : Option Document) (s : Settings) :
    compile v [c] [] context s
      = (Test.ofClause v c).map fun t => ⟨[t], context, context.map v.link, [], s⟩ := by
  have horder : inOrderOfWeight [c] = [c] := List.mergeSort_singleton c
  rw [compile, horder, collect]
  cases Test.ofClause v c with
  | error e => rfl
  | ok t => rfl

/-- The tests of a compiled query are those of its clauses. -/
theorem mem_tests (h : compile v clauses sort context s = .ok q) {t : Test} :
    t ∈ q.tests ↔ ∃ c ∈ clauses, Test.ofClause v c = .ok t := by
  obtain ⟨hts, -⟩ := compile_eq_ok_iff.mp h
  rw [mem_collect hts]
  simp [inOrderOfWeight]

/-- The link a compiled query works with is that of its context. -/
theorem contextLink_eq (h : compile v clauses sort context s = .ok q) :
    q.contextLink = context.map v.link :=
  (compile_eq_ok_iff.mp h).2.2.2.1

/-- The clauses of a compiled query, in the order of their weights. -/
theorem clauses_eq (h : compile v clauses sort context s = .ok q) :
    q.clauses = inOrderOfWeight clauses := by
  obtain ⟨hts, -⟩ := compile_eq_ok_iff.mp h
  exact Test.map_clause (collect_eq_ok_iff.mp hts)

/-- Reordering keeps the clauses. -/
theorem clauses_perm (h : compile v clauses sort context s = .ok q) :
    q.clauses.Perm clauses := by
  rw [clauses_eq h]
  exact List.mergeSort_perm clauses _

/-- A query reads frontmatter exactly when one of its clauses does. -/
theorem readsFrontmatter_iff (h : compile v clauses sort context s = .ok q) :
    q.readsFrontmatter = true ↔ ∃ c ∈ clauses, c.key.isIntrinsic = false := by
  simp [readsFrontmatter, (clauses_perm h).mem_iff]

/-- Compilation fails only at a key that names no attribute. -/
theorem exists_compile_iff :
    (∃ q, compile v clauses sort context s = .ok q) ↔
      (∀ c ∈ clauses, ∃ a, v.resolve c.key = .ok a) ∧
        ∀ f ∈ sort, ∃ a, v.resolve f.key = .ok a := by
  have htests : (∃ ts, collect (Test.ofClause v) (inOrderOfWeight clauses) = .ok ts) ↔
      ∀ c ∈ clauses, ∃ a, v.resolve c.key = .ok a := by
    simp [exists_collect_iff, Test.exists_ofClause_iff, inOrderOfWeight]
  have hfields : (∃ fs, collect (resolveSortField v) sort.reverse = .ok fs) ↔
      ∀ f ∈ sort, ∃ a, v.resolve f.key = .ok a := by
    rw [exists_collect_iff]
    simp only [List.mem_reverse, resolveSortField, map_eq_ok_iff]
    refine forall₂_congr fun f _ => ?_
    constructor
    · rintro ⟨_, a, ha, _⟩
      exact ⟨a, ha⟩
    · rintro ⟨a, ha⟩
      exact ⟨_, a, ha, rfl⟩
  rw [← htests, ← hfields]
  constructor
  · rintro ⟨q, h⟩
    obtain ⟨hts, hfs, -⟩ := compile_eq_ok_iff.mp h
    exact ⟨⟨_, hts⟩, ⟨_, hfs⟩⟩
  · rintro ⟨⟨ts, hts⟩, ⟨fs, hfs⟩⟩
    exact ⟨⟨ts, context, context.map v.link, fs, s⟩,
      compile_eq_ok_iff.mpr ⟨hts, hfs, rfl, rfl, rfl⟩⟩

end Query
end VaultQuery
