import VaultQuery.Proofs.Query.Compilation
import VaultQuery.Proofs.Vault.Sample

/-! # A query is the conjunction of its clauses

    Weights, values coerced up front, the context's link found once and the refusal of
    documents without frontmatter speed a query up. They do not change what it means:

    * `Clause.Passes` is the meaning of one clause, without any of this;
    * `Query.accepts_eq_true_iff`: a compiled query accepts the documents that pass every
      clause;
    * `Query.exists_accepts`: testing fails only for want of a link;
    * `Query.accepts_iff_each_clause` says the same through queries of one clause. -/

namespace VaultQuery

namespace Clause

/-- The clause needs the link of a context document. -/
def NeedsLink (c : Clause) : Prop := c.op = .hasThis ∨ c.operand.isDynamic = true

/-- The meaning of a clause on its own: a field is looked for only in a document with
    frontmatter, and the attribute's value passes the test of the resolved operand. -/
def Passes (v : Vault) (link : Option String) (d : Document) (c : Clause) : Prop :=
  (c.key.isIntrinsic = false → d.frontmatter.isSome = true) ∧
    ∃ a w, v.resolve c.key = .ok a ∧ c.operand.resolve a link = .ok w ∧
      c.op.holds a d w link = .ok true

end Clause

/-- Where a link is there or not needed, neither operand nor operator is without one. -/
theorem Clause.isSome_or_of_not_needsLink {c : Clause} {link : Option String}
    (h : link.isSome = true ∨ ¬ c.NeedsLink) :
    (link.isSome = true ∨ c.operand.isDynamic = false) ∧
      (link.isSome = true ∨ c.op ≠ .hasThis) := by
  rcases h with h | h
  · exact ⟨Or.inl h, Or.inl h⟩
  · exact ⟨Or.inr (Bool.eq_false_iff.mpr fun hd => h (Or.inr hd)),
      Or.inr fun ho => h (Or.inl ho)⟩

theorem thisLink_eq_ok_iff {link : Option String} {key : Key} {l : String} :
    thisLink link key = .ok l ↔ link = some l := by
  cases link with
  | none => simp [thisLink]
  | some l' => simp [thisLink]

/-- The dynamic operand resolves to the text of the context's link. -/
theorem Operand.resolve_linkToThis {link : Option String} {a : Attribute} {w : Value} :
    Operand.linkToThis.resolve a link = .ok w ↔ ∃ l, link = some l ∧ w = .text l := by
  rw [resolve, map_eq_ok_iff]
  refine exists_congr fun l => ?_
  rw [thisLink_eq_ok_iff, eq_comm (b := w)]

/-- An operand resolves if there is a link or it is a value. -/
theorem Operand.exists_resolve {o : Operand} {link : Option String}
    (h : link.isSome = true ∨ o.isDynamic = false) (a : Attribute) :
    ∃ w, o.resolve a link = .ok w := by
  cases o with
  | value w => exact ⟨_, rfl⟩
  | linkToThis =>
      rcases h with h | h
      · obtain ⟨l, rfl⟩ := Option.isSome_iff_exists.mp h
        exact ⟨.text l, rfl⟩
      · exact nomatch h

/-- An operator decides if there is a link or it is not `hasThis`. -/
theorem Operator.exists_holds {op : Operator} {link : Option String}
    (h : link.isSome = true ∨ op ≠ .hasThis) (a : Attribute) (d : Document) (w : Value) :
    ∃ b, op.holds a d w link = .ok b := by
  cases op with
  | hasThis =>
      rcases h with h | h
      · obtain ⟨l, rfl⟩ := Option.isSome_iff_exists.mp h
        exact ⟨holdsLink (a.value d) l, rfl⟩
      · exact absurd rfl h
  | _ => exact ⟨_, rfl⟩

namespace Test

variable {v : Vault} {c : Clause} {t : Test} {d : Document} {link : Option String}

/-- A test holds exactly when the resolved operand passes. -/
theorem holds_eq_ok_iff (h : ofClause v c = .ok t) {b : Bool} :
    t.holds d link = .ok b ↔
      ∃ a w, v.resolve c.key = .ok a ∧ c.operand.resolve a link = .ok w ∧
        c.op.holds a d w link = .ok b := by
  obtain ⟨hc, ha, hvalue⟩ := spec_ofClause h
  rw [holds, hvalue, hc]
  cases hw : c.operand.resolve t.subject link with
  | error e => simp [ha, hw]
  | ok w => simp [ha, hw]

/-- A test decides unless its clause needs a link and there is none. -/
theorem exists_holds (h : ofClause v c = .ok t) (hlink : link.isSome = true ∨ ¬ c.NeedsLink)
    (d : Document) : ∃ b, t.holds d link = .ok b := by
  obtain ⟨-, ha, -⟩ := spec_ofClause h
  obtain ⟨hoperand, hop⟩ := Clause.isSome_or_of_not_needsLink hlink
  obtain ⟨w, hw⟩ := Operand.exists_resolve hoperand t.subject
  obtain ⟨b, hb⟩ := Operator.exists_holds hop t.subject d w
  exact ⟨b, (holds_eq_ok_iff h).mpr ⟨t.subject, w, ha, hw, hb⟩⟩

end Test

namespace Query

variable {v : Vault} {s : Settings} {context : Option Document} {sort : List SortField}
  {clauses : List Clause} {q : Query}

/-- Leaving out the tests after one that does not hold leaves out nothing. -/
theorem allHold_eq_true_iff {d : Document} {link : Option String} {ts : List Test} :
    allHold d link ts = .ok true ↔ ∀ t ∈ ts, t.holds d link = .ok true := by
  induction ts with
  | nil => simp [allHold]
  | cons t ts ih =>
      rw [allHold, List.forall_mem_cons, ← ih]
      cases ht : t.holds d link with
      | error e => simp
      | ok b => cases b <;> simp

/-- Tests that all decide decide together. -/
theorem exists_allHold {d : Document} {link : Option String} {ts : List Test}
    (h : ∀ t ∈ ts, ∃ b, t.holds d link = .ok b) : ∃ b, allHold d link ts = .ok b := by
  induction ts with
  | nil => exact ⟨true, rfl⟩
  | cons t ts ih =>
      obtain ⟨⟨b, hb⟩, hts⟩ := List.forall_mem_cons.mp h
      rw [allHold, hb]
      cases b with
      | true => exact ih hts
      | false => exact ⟨false, rfl⟩

/-- A compiled query accepts the documents that pass every clause. -/
theorem accepts_eq_true_iff (h : compile v clauses sort context s = .ok q) (d : Document) :
    q.accepts d = .ok true ↔ ∀ c ∈ clauses, c.Passes v (context.map v.link) d := by
  have hall : allHold d q.contextLink q.tests = .ok true ↔
      ∀ c ∈ clauses, ∃ a w, v.resolve c.key = .ok a ∧
        c.operand.resolve a (context.map v.link) = .ok w ∧
        c.op.holds a d w (context.map v.link) = .ok true := by
    rw [allHold_eq_true_iff, contextLink_eq h]
    constructor
    · intro ht c hc
      obtain ⟨t, hct⟩ : ∃ t, Test.ofClause v c = .ok t :=
        Test.exists_ofClause_iff.mpr ((exists_compile_iff.mp ⟨q, h⟩).1 c hc)
      exact (Test.holds_eq_ok_iff hct).mp (ht t ((mem_tests h).mpr ⟨c, hc, hct⟩))
    · intro hc t ht
      obtain ⟨c, hmem, hct⟩ := (mem_tests h).mp ht
      exact (Test.holds_eq_ok_iff hct).mpr (hc c hmem)
  rw [accepts]
  by_cases hr : (q.readsFrontmatter && d.frontmatter.isNone) = true
  -- the document is refused before any test: one of the clauses is on a field
  · rw [if_pos hr]
    obtain ⟨hreads, hnone⟩ := Bool.and_eq_true_iff.mp hr
    obtain ⟨c, hc, hfield⟩ := (readsFrontmatter_iff h).mp hreads
    constructor
    · intro hfalse
      exact nomatch hfalse
    · intro hpass
      have hsome := (hpass c hc).1 hfield
      rw [Option.isNone_iff_eq_none.mp hnone] at hsome
      exact nomatch hsome
  · rw [if_neg hr, hall]
    have hblock : ∀ c ∈ clauses, c.key.isIntrinsic = false → d.frontmatter.isSome = true := by
      intro c hc hfield
      have hreads : q.readsFrontmatter = true := (readsFrontmatter_iff h).mpr ⟨c, hc, hfield⟩
      rw [hreads, Bool.true_and, Bool.not_eq_true] at hr
      cases hf : d.frontmatter with
      | none => rw [hf] at hr; exact nomatch hr
      | some f => rfl
    constructor
    · intro hpass c hc
      exact ⟨hblock c hc, hpass c hc⟩
    · intro hpass c hc
      exact (hpass c hc).2

/-- With a context, or without clauses that need one, every document gets an answer. -/
theorem exists_accepts (h : compile v clauses sort context s = .ok q)
    (hlink : context.isSome = true ∨ ∀ c ∈ clauses, ¬ c.NeedsLink) (d : Document) :
    ∃ b, q.accepts d = .ok b := by
  rw [accepts]
  by_cases hr : (q.readsFrontmatter && d.frontmatter.isNone) = true
  · rw [if_pos hr]
    exact ⟨false, rfl⟩
  · rw [if_neg hr]
    refine exists_allHold ?_
    intro t ht
    obtain ⟨c, hc, hct⟩ := (mem_tests h).mp ht
    refine Test.exists_holds hct ?_ d
    rw [contextLink_eq h, Option.isSome_map]
    exact hlink.imp id fun hn => hn c hc

/-- The query of one clause of a query compiles, and accepts what passes the clause. -/
theorem exists_single (h : compile v clauses sort context s = .ok q) {c : Clause}
    (hc : c ∈ clauses) :
    ∃ one, compile v [c] [] context s = .ok one ∧
      ∀ d, one.accepts d = .ok true ↔ c.Passes v (context.map v.link) d := by
  have hresolves := (exists_compile_iff.mp ⟨q, h⟩).1 c hc
  obtain ⟨one, hone⟩ : ∃ one, compile v [c] [] context s = .ok one :=
    exists_compile_iff.mpr ⟨by simpa using hresolves, by simp⟩
  refine ⟨one, hone, fun d => ?_⟩
  rw [accepts_eq_true_iff hone, List.forall_mem_singleton]

/-- A query of one clause that compares a field with a value compiles, and answers for every
    document: it refuses those without frontmatter, and for the others the answer is that of
    the operator. -/
theorem exists_field {name : String} {k : Kind} {op : Operator}
    (hkind : v.resolve (.field name) = .ok (.field name k)) (hop : op ≠ .hasThis) (w : Value)
    (context : Option Document) (s : Settings) :
    ∃ q, compile v [⟨.field name, op, .value w⟩] [] context s = .ok q ∧
      ∀ d, q.accepts d = .ok (d.frontmatter.isSome &&
        op.holdsFor ((Attribute.field name k).value d) (k.coerce w)) := by
  have hready : Test.ofClause v ⟨.field name, op, .value w⟩
      = .ok ⟨⟨.field name, op, .value w⟩, .field name k, some (k.coerce w)⟩ := by
    rw [Test.ofClause, hkind]
    rfl
  refine ⟨_, by rw [compile_singleton, hready]; rfl, fun d => ?_⟩
  have hholds : op.holds (.field name k) d (k.coerce w) (context.map v.link)
      = .ok (op.holdsFor ((Attribute.field name k).value d) (k.coerce w)) := by
    cases op with
    | hasThis => exact absurd rfl hop
    | _ => rfl
  cases hf : d.frontmatter with
  | none =>
      rw [accepts, hf]
      rfl
  | some f =>
      rw [accepts, hf, Option.isSome_some, Bool.true_and, if_neg (by simp), allHold, Test.holds,
        Test.value]
      simp only [hholds]
      cases op.holdsFor ((Attribute.field name k).value d) (k.coerce w) <;> rfl

/-- A query of all clauses of two others compiles, and accepts what both accept. -/
theorem exists_joined {more joined : List Clause} {sort' : List SortField} {qm : Query}
    (h : compile v clauses sort context s = .ok q)
    (hm : compile v more sort' context s = .ok qm)
    (hjoined : ∀ c, c ∈ joined ↔ c ∈ clauses ∨ c ∈ more) :
    ∃ qj, compile v joined sort context s = .ok qj ∧
      ∀ d, qj.accepts d = .ok true ↔ q.accepts d = .ok true ∧ qm.accepts d = .ok true := by
  obtain ⟨hclauses, hsort⟩ := exists_compile_iff.mp ⟨q, h⟩
  obtain ⟨hmore, -⟩ := exists_compile_iff.mp ⟨qm, hm⟩
  have hresolves : ∀ c ∈ joined, ∃ a, v.resolve c.key = .ok a := by
    intro c hc
    rcases (hjoined c).mp hc with hc | hc
    · exact hclauses c hc
    · exact hmore c hc
  obtain ⟨qj, hj⟩ := exists_compile_iff.mpr ⟨hresolves, hsort⟩
  refine ⟨qj, hj, fun d => ?_⟩
  rw [accepts_eq_true_iff hj, accepts_eq_true_iff h, accepts_eq_true_iff hm]
  constructor
  · intro hpass
    exact ⟨fun c hc => hpass c ((hjoined c).mpr (Or.inl hc)),
      fun c hc => hpass c ((hjoined c).mpr (Or.inr hc))⟩
  · rintro ⟨hpass, hpass'⟩ c hc
    rcases (hjoined c).mp hc with hc | hc
    · exact hpass c hc
    · exact hpass' c hc

/-- **A query is the conjunction of its clauses.** It accepts a document exactly when that passes
    every clause, and when the query of each clause alone accepts it; with a context, or without clauses that need one, it
    gives every document an answer; and whatever clauses are added to it, in whatever order
    and however often, the result accepts what both parts accept. -/
theorem accepts_iff_each_clause (h : compile v clauses sort context s = .ok q) :
    (∀ d, q.acceptsAny (some d) = .ok true ↔
      ∀ c ∈ clauses, c.Passes v (context.map v.link) d) ∧
    (∀ d, q.acceptsAny (some d) = .ok true ↔
      ∀ c ∈ clauses, ∃ one, compile v [c] [] context s = .ok one ∧
        one.acceptsAny (some d) = .ok true) ∧
    (context.isSome = true ∨ (∀ c ∈ clauses, ¬ c.NeedsLink) →
      ∀ d, ∃ b, q.acceptsAny d = .ok b) ∧
    ∀ (more joined : List Clause) (sort' : List SortField) (qm : Query),
      compile v more sort' context s = .ok qm →
      (∀ c, c ∈ joined ↔ c ∈ clauses ∨ c ∈ more) →
      ∃ qj, compile v joined sort context s = .ok qj ∧
        ∀ d, qj.acceptsAny (some d) = .ok true ↔
          q.acceptsAny (some d) = .ok true ∧ qm.acceptsAny (some d) = .ok true := by
  refine ⟨accepts_eq_true_iff h, fun d => ?_, fun hlink d => ?_,
    fun more joined sort' qm hm hjoined => ?_⟩
  · show q.accepts d = .ok true ↔ _
    rw [accepts_eq_true_iff h]
    constructor
    · intro hpass c hc
      obtain ⟨one, hone, haccepts⟩ := exists_single h hc
      exact ⟨one, hone, (haccepts d).mpr (hpass c hc)⟩
    · intro hsingle c hc
      obtain ⟨one, hone, haccepts⟩ := exists_single h hc
      obtain ⟨one', hone', hd⟩ := hsingle c hc
      have hsame : one = one' := Except.ok.inj (hone.symm.trans hone')
      exact (haccepts d).mp (hsame ▸ hd)
  · cases d with
    | none => exact ⟨false, rfl⟩
    | some d => exact exists_accepts h hlink d
  · exact exists_joined h hm hjoined

/-- A book on a reading list, asked for by clauses that are tried in another order, and asked
    for by each of them twice. -/
theorem accepts_iff_each_clause_of_book :
    ∃ q, compile Sample.library Sample.unreadOnList [] (some Sample.readingList) .default
        = .ok q ∧
      q.acceptsAny (some Sample.dune) = .ok true ∧
      (∀ c ∈ Sample.unreadOnList,
        c.Passes Sample.library (some (Sample.library.link Sample.readingList)) Sample.dune) ∧
      (∀ c ∈ Sample.unreadOnList,
        ∃ one, compile Sample.library [c] [] (some Sample.readingList) .default = .ok one ∧
          one.acceptsAny (some Sample.dune) = .ok true) ∧
      (∀ d, ∃ b, q.acceptsAny d = .ok b) ∧
      ∃ twice, compile Sample.library (Sample.unreadOnList.reverse ++ Sample.unreadOnList) []
          (some Sample.readingList) .default = .ok twice ∧
        twice.acceptsAny (some Sample.dune) = .ok true := by
  have hrun : (compile Sample.library Sample.unreadOnList [] (some Sample.readingList) .default
      >>= fun q => q.acceptsAny (some Sample.dune)).toOption = some true := by
    have horder : inOrderOfWeight Sample.unreadOnList = Sample.unreadOnList.reverse := by
      simp [inOrderOfWeight, Sample.unreadOnList, List.mergeSort, Operator.weight,
        Double.largestFinite]
    rw [compile, horder]
    decide +kernel
  obtain ⟨q, h, hdune⟩ := bind_eq_ok_iff.mp (toOption_eq_some_iff.mp hrun)
  obtain ⟨hpasses, heach, hanswer, hadded⟩ := accepts_iff_each_clause h
  obtain ⟨twice, htwice, hboth⟩ :=
    hadded Sample.unreadOnList (Sample.unreadOnList.reverse ++ Sample.unreadOnList) [] q h
      (fun c => by rw [List.mem_append, List.mem_reverse])
  exact ⟨q, h, hdune, (hpasses Sample.dune).mp hdune, (heach Sample.dune).mp hdune,
    hanswer (Or.inl rfl), twice, htwice, (hboth Sample.dune).mpr ⟨hdune, hdune⟩⟩

end Query
end VaultQuery
