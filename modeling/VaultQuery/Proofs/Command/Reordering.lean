import VaultQuery.Proofs.Command.Sorting
import VaultQuery.Proofs.Failure.First
import VaultQuery.Proofs.Query.MissingContext

/-! # Selections with reordered clauses

    Clauses may be given in any order: what a selection lists does not depend on it. Whether
    a selection without a context fails can depend on it, because a test ends at the first
    clause that does not pass, and clauses of one weight are tried as they were given.

    * `Vault.selection`: the report on some clauses, and `Vault.select_eq_selection`: what a
      client asks for is this;
    * `SameOutcome`: selections that list the same or fail for the same reason;
    * `Vault.missesContext_selection_iff`: when a selection without a context fails;
    * `Vault.sameOutcome_perm_iff`: when all orders of some clauses end the same. -/

namespace VaultQuery

variable {α β : Type} {v : Vault} {s : Settings} {sort : List SortField}
  {context : Option Document} {clauses clauses' : List Clause} {q : Query} {d : Document}
  {ds : List Document}

/-! ## Reports -/

theorem missesContext_map {f : α → β} {x : Except Failure α} :
    MissesContext (x.map f) ↔ MissesContext x := by
  cases x with
  | error e => simp [MissesContext, Except.map]
  | ok a => simp [MissesContext, Except.map]

namespace Query

/-- A walk misses a context exactly when one of its tests does, if nothing else fails. -/
theorem missesContext_accepted_iff
    (h : ∀ d ∈ ds, (∃ b, q.accepts d = .ok b) ∨ MissesContext (q.accepts d)) :
    MissesContext (q.accepted ds) ↔ ∃ d ∈ ds, MissesContext (q.accepts d) := by
  induction ds with
  | nil => simp [accepted, MissesContext]
  | cons d ds ih =>
      obtain ⟨hd, hds⟩ := List.forall_mem_cons.mp h
      simp only [List.mem_cons, exists_eq_or_imp]
      rw [accepted, ← ih hds]
      rcases hd with ⟨b, hb⟩ | ⟨key, hkey⟩
      · rw [hb]
        cases b with
        | true =>
            rw [missesContext_map]
            exact (or_iff_right fun h => h.ne_ok true rfl).symm
        | false => exact (or_iff_right fun h => h.ne_ok false rfl).symm
      · rw [hkey]
        exact ⟨fun _ => Or.inl ⟨key, rfl⟩, fun _ => ⟨key, rfl⟩⟩

/-- A query that was made ready reports or misses a context. -/
theorem report_answers_or_missesContext (h : compile v clauses sort context s = .ok q)
    (w : Vault) : (∃ r, q.report w = .ok r) ∨ MissesContext (q.report w) := by
  have hanswers := fun d (_ : d ∈ w.documentList) => accepts_answers_or_missesContext h d
  rw [report, missesContext_map, matching, missesContext_map, missesContext_accepted_iff hanswers]
  by_cases hall : ∀ d ∈ w.documentList, ∃ b, q.accepts d = .ok b
  · obtain ⟨found, hfound⟩ := exists_matching_iff.mpr hall
    rw [matching] at hfound
    exact Or.inl ⟨_, map_eq_ok_iff.mpr ⟨found, hfound, rfl⟩⟩
  · simp only [Classical.not_forall] at hall
    obtain ⟨d, hd, hnone⟩ := hall
    exact Or.inr ⟨d, hd, (hanswers d hd).resolve_left hnone⟩

/-- Without a context a report fails exactly when the clauses get stuck at some document. -/
theorem missesContext_report_iff (h : compile v clauses sort none s = .ok q) (w : Vault) :
    MissesContext (q.report w) ↔
      ∃ d ∈ w.documentList, IsTested clauses d ∧ GetsStuck v d (inOrderOfWeight clauses) := by
  rw [report, missesContext_map, matching, missesContext_map,
    missesContext_accepted_iff fun d _ => accepts_answers_or_missesContext h d]
  simp only [missesContext_accepts_iff h]

/-- Queries of the same clauses, however they are given, list the same documents. -/
theorem listed_eq_of_perm {q' : Query} {r r' : Report} (hperm : clauses'.Perm clauses)
    (h : compile v clauses sort context s = .ok q)
    (h' : compile v clauses' sort context s = .ok q') (hr : q.report v = .ok r)
    (hr' : q'.report v = .ok r') : r'.listed = r.listed := by
  obtain ⟨found, hfound, rfl⟩ := map_eq_ok_iff.mp hr
  obtain ⟨found', hfound', rfl⟩ := map_eq_ok_iff.mp hr'
  refine congrArg (List.map v.linked) ?_
  refine Vault.eq_of_precedes (pairwise_precedes_of_matching h' hfound')
    (pairwise_precedes_of_matching h hfound) fun d => ?_
  rw [mem_matching hfound, mem_matching hfound', accepts_eq_true_iff h, accepts_eq_true_iff h']
  simp only [hperm.mem_iff]

end Query

/-! ## Selections -/

namespace Vault

/-- The documents that some clauses select, as a report. -/
def selection (v : Vault) (s : Settings) (sort : List SortField) (context : Option Document)
    (clauses : List Clause) : Except Failure Report :=
  (Query.compile v clauses sort context s).bind fun q => q.report v

/-- What a client asks for in expressions is a selection, once they are read and the context is
    looked up. -/
theorem select_eq_selection (v : Vault) (s : Settings) (expressions sort : List String)
    (context : Option String) :
    v.select s expressions sort context = (do
      let clauses ← collect Clause.ofExpression expressions
      let fields ← collect SortField.ofExpression sort
      let c ← v.contextDocument context
      v.selection s fields c clauses) := by
  simp only [select, queryExpressions, query, bind_assoc]
  rfl

/-- A key that names nothing is the failure. -/
theorem exists_of_resolve_eq_error {key : Key} {e : Failure} (h : v.resolve key = .error e) :
    ∃ name, e = .unresolvedAttribute name := by
  cases key with
  | intrinsic i => cases h
  | field name =>
      rw [resolve] at h
      split at h
      · cases h
        exact ⟨name, rfl⟩
      · cases h

/-- If a sort field names nothing, selections fail before they test anything, and all alike. -/
theorem exists_selection_eq_error (hsort : ¬ ∀ f ∈ sort, ∃ a, v.resolve f.key = .ok a)
    (s : Settings) (context : Option Document) :
    ∃ key, ∀ clauses : List Clause, (∀ c ∈ clauses, ∃ a, v.resolve c.key = .ok a) →
      v.selection s sort context clauses = .error (.unresolvedAttribute key) := by
  cases hfields : collect (Query.resolveSortField v) sort.reverse with
  | ok fields =>
      refine absurd (fun f hf => ?_) hsort
      obtain ⟨field, hfield⟩ := exists_collect_iff.mp ⟨fields, hfields⟩ f (List.mem_reverse.mpr hf)
      obtain ⟨a, ha, -⟩ := map_eq_ok_iff.mp hfield
      exact ⟨a, ha⟩
  | error e =>
      obtain ⟨f, -, hf⟩ := collect_eq_error_iff.mp hfields
      obtain ⟨key, rfl⟩ : ∃ key, e = .unresolvedAttribute key := by
        rw [Query.resolveSortField] at hf
        cases hkey : v.resolve f.key with
        | ok a => simp [hkey, Except.map] at hf
        | error e' =>
            rw [hkey] at hf
            cases hf
            exact exists_of_resolve_eq_error hkey
      refine ⟨key, fun clauses hkeys => ?_⟩
      obtain ⟨q, h⟩ : ∃ q, Query.compile v clauses [] context s = .ok q :=
        Query.exists_compile_iff.mpr ⟨hkeys, fun _ h => absurd h List.not_mem_nil⟩
      obtain ⟨htests, -⟩ := Query.compile_eq_ok_iff.mp h
      rw [selection, Query.compile, htests, hfields]
      rfl

section Resolved

variable (hkeys : ∀ c ∈ clauses, ∃ a, v.resolve c.key = .ok a)
  (hsort : ∀ f ∈ sort, ∃ a, v.resolve f.key = .ok a)

include hkeys hsort

theorem selection_eq_report (s : Settings) (context : Option Document) :
    ∃ q, Query.compile v clauses sort context s = .ok q ∧
      v.selection s sort context clauses = q.report v := by
  obtain ⟨q, h⟩ := Query.exists_compile_iff.mpr ⟨hkeys, hsort⟩
  refine ⟨q, h, ?_⟩
  rw [selection, h]
  rfl

/-- A selection lists documents or misses a context. -/
theorem selection_answers_or_missesContext (s : Settings) (context : Option Document) :
    (∃ r, v.selection s sort context clauses = .ok r) ∨
      MissesContext (v.selection s sort context clauses) := by
  obtain ⟨q, h, hreport⟩ := selection_eq_report hkeys hsort s context
  rw [hreport]
  exact Query.report_answers_or_missesContext h v

/-- **A selection misses a context exactly when there is none** and the clauses get stuck at
    some document of the vault. -/
theorem missesContext_selection_iff :
    MissesContext (v.selection s sort context clauses) ↔
      context = none ∧ ∃ d ∈ v.documentList,
        IsTested clauses d ∧ GetsStuck v d (Query.inOrderOfWeight clauses) := by
  obtain ⟨q, h, hreport⟩ := selection_eq_report hkeys hsort s context
  rw [hreport]
  cases context with
  | none => rw [Query.missesContext_report_iff h, and_iff_right rfl]
  | some c =>
      obtain ⟨r, hr, -⟩ := Query.exists_report (Query.exists_accepts h (Or.inl rfl)) v
      exact ⟨fun hmisses => absurd hr (hmisses.ne_ok r), fun hnone => nomatch hnone.1⟩

end Resolved

/-- Selections of the same clauses that succeed list the same documents. -/
theorem listed_eq_of_perm {r r' : Report} (hperm : clauses'.Perm clauses)
    (hr : v.selection s sort context clauses = .ok r)
    (hr' : v.selection s sort context clauses' = .ok r') : r'.listed = r.listed := by
  obtain ⟨q, h, hr⟩ := bind_eq_ok_iff.mp hr
  obtain ⟨q', h', hr'⟩ := bind_eq_ok_iff.mp hr'
  exact Query.listed_eq_of_perm hperm h h' hr hr'

/-- Where a link is missed nothing passes. -/
theorem listed_eq_nil {r : Report} {c : Clause} (hc : c ∈ clauses) (hneeds : c.NeedsLink)
    (hr : v.selection s sort none clauses = .ok r) : r.listed = [] := by
  obtain ⟨q, h, hr⟩ := bind_eq_ok_iff.mp hr
  obtain ⟨found, hfound, rfl⟩ := map_eq_ok_iff.mp hr
  have hnone : found = [] := by
    refine List.eq_nil_iff_forall_not_mem.mpr fun d hd => ?_
    have hpass := (Query.accepts_eq_true_iff h d).mp ((Query.mem_matching hfound).mp hd).2
    exact Clause.not_passes_of_needsLink hneeds (hpass c hc)
  rw [hnone]
  rfl

end Vault

/-! ## Orders of clauses -/

/-- Two selections end alike: they list the same documents in the same order, or both miss a
    context, or both stop at the same key that names nothing. -/
inductive SameOutcome : Except Failure Report → Except Failure Report → Prop where
  | listed {r r' : Report} (h : r'.listed = r.listed) : SameOutcome (.ok r) (.ok r')
  | missingContext (key key' : String) :
      SameOutcome (.error (.missingContext key)) (.error (.missingContext key'))
  | unresolved (key : String) :
      SameOutcome (.error (.unresolvedAttribute key)) (.error (.unresolvedAttribute key))

namespace SameOutcome

variable {x y : Except Failure Report}

theorem of_missesContext (hx : MissesContext x) (hy : MissesContext y) : SameOutcome x y := by
  obtain ⟨key, rfl⟩ := hx
  obtain ⟨key', rfl⟩ := hy
  exact .missingContext key key'

theorem missesContext_iff (h : SameOutcome x y) : MissesContext x ↔ MissesContext y := by
  cases h with
  | listed h => exact ⟨fun h => absurd rfl (h.ne_ok _), fun h => absurd rfl (h.ne_ok _)⟩
  | missingContext key key' => exact ⟨fun _ => ⟨key', rfl⟩, fun _ => ⟨key, rfl⟩⟩
  | unresolved key => exact Iff.rfl

end SameOutcome

namespace Vault

/-- Whether selections of some clauses fail depends on the order in which these are given:
    there is no context, and some document can get them stuck, but none has to. -/
structure DependsOnOrder (v : Vault) (sort : List SortField) (context : Option Document)
    (clauses : List Clause) : Prop where
  noContext : context = none
  sorts : ∀ f ∈ sort, ∃ a, v.resolve f.key = .ok a
  canGetStuck : ∃ d ∈ v.documentList, IsTested clauses d ∧ CanGetStuck v d clauses
  needNot : ∀ d ∈ v.documentList, IsTested clauses d → ¬ MustGetStuck v d clauses

section Orders

variable {given given' : List Clause}
  (hkeys : ∀ c ∈ clauses, ∃ a, v.resolve c.key = .ok a)

include hkeys

theorem resolve_of_perm (hperm : given.Perm clauses) :
    ∀ c ∈ given, ∃ a, v.resolve c.key = .ok a :=
  fun c hc => hkeys c (hperm.mem_iff.mp hc)

variable (hsort : ∀ f ∈ sort, ∃ a, v.resolve f.key = .ok a)

include hsort

/-- What an order of the clauses decides is only at which documents they get stuck. -/
theorem missesContext_perm_iff (hperm : given.Perm clauses) :
    MissesContext (v.selection s sort context given) ↔
      context = none ∧ ∃ d ∈ v.documentList,
        IsTested clauses d ∧ GetsStuck v d (Query.inOrderOfWeight given) := by
  rw [missesContext_selection_iff (resolve_of_perm hkeys hperm) hsort]
  simp only [isTested_perm hperm]

/-- Where a document has to get clauses stuck, every order of them misses a context. -/
theorem missesContext_of_mustGetStuck (hperm : given.Perm clauses) (hd : d ∈ v.documentList)
    (htested : IsTested clauses d) (hmust : MustGetStuck v d clauses) :
    MissesContext (v.selection s sort none given) := by
  refine (missesContext_perm_iff hkeys hsort hperm).mpr
    ⟨rfl, d, hd, htested, getsStuck_of_mustGetStuck ?_⟩
  exact (mustGetStuck_perm hperm).mpr hmust

/-- If of two orders one misses a context and the other does not, it depends on the order. -/
theorem dependsOnOrder_of_missesContext (hperm : given.Perm clauses)
    (hperm' : given'.Perm clauses) (h : MissesContext (v.selection s sort context given))
    (h' : ¬ MissesContext (v.selection s sort context given')) :
    v.DependsOnOrder sort context clauses := by
  obtain ⟨rfl, d, hd, htested, hstuck⟩ := (missesContext_perm_iff hkeys hsort hperm).mp h
  refine ⟨rfl, hsort, ⟨d, hd, htested, ?_⟩, fun d hd htested hmust => ?_⟩
  · exact (canGetStuck_perm hperm).mp (canGetStuck_of_getsStuck hstuck)
  · exact h' (missesContext_of_mustGetStuck hkeys hsort hperm' hd htested hmust)

/-- Two orders of the same clauses end alike if both miss a context or neither does. -/
theorem sameOutcome_of_iff (hperm : given.Perm clauses)
    (hiff : MissesContext (v.selection s sort context clauses) ↔
      MissesContext (v.selection s sort context given)) :
    SameOutcome (v.selection s sort context clauses) (v.selection s sort context given) := by
  rcases selection_answers_or_missesContext hkeys hsort s context with ⟨r, hr⟩ | hmisses
  · rcases selection_answers_or_missesContext (resolve_of_perm hkeys hperm) hsort s
      context with ⟨r', hr'⟩ | hmisses'
    · have hlisted := listed_eq_of_perm hperm hr hr'
      rw [hr, hr']
      exact .listed hlisted
    · exact absurd hr ((hiff.mpr hmisses').ne_ok r)
  · exact .of_missesContext hmisses (hiff.mp hmisses)

omit hsort in
/-- If it depends on the order, one order misses a context and another does not. -/
theorem exists_orders_of_dependsOnOrder (h : v.DependsOnOrder sort context clauses) :
    (∃ given, given.Perm clauses ∧ MissesContext (v.selection s sort context given)) ∧
      ∃ given, given.Perm clauses ∧ ¬ MissesContext (v.selection s sort context given) := by
  obtain ⟨rfl, hsort, ⟨d, hd, htested, hcan⟩, hneednot⟩ := h
  constructor
  · have hperm := putFirst_perm (·.NeedsLink) clauses
    refine ⟨_, hperm, ?_⟩
    exact (missesContext_perm_iff hkeys hsort hperm).mpr
      ⟨rfl, d, hd, htested, getsStuck_of_canGetStuck hcan⟩
  · have hperm := putFirst_perm (¬ ·.NeedsLink) clauses
    refine ⟨_, hperm, fun hmisses => ?_⟩
    obtain ⟨-, d, hd, htested, hstuck⟩ := (missesContext_perm_iff hkeys hsort hperm).mp hmisses
    exact hneednot d hd htested (mustGetStuck_of_getsStuck hstuck)

omit hsort in
/-- If it depends on the order, an order that does not fail lists nothing. -/
theorem missesContext_or_listed_eq_nil (h : v.DependsOnOrder sort context clauses)
    (hperm : given.Perm clauses) :
    MissesContext (v.selection s sort context given) ∨
      ∃ r, v.selection s sort context given = .ok r ∧ r.listed = [] := by
  obtain ⟨rfl, hsort, ⟨d, -, -, c, hc, hneeds, -⟩, -⟩ := h
  rcases selection_answers_or_missesContext (resolve_of_perm hkeys hperm) hsort s none
    with ⟨r, hr⟩ | hmisses
  · exact Or.inr ⟨r, hr, listed_eq_nil (hperm.mem_iff.mpr hc) hneeds hr⟩
  · exact Or.inl hmisses

end Orders

/-- Clauses of different weight may change places: they are tried in one order. -/
theorem selection_eq_of_filter_eq {given : List Clause} (hperm : given.Perm clauses)
    (h : ∀ n, given.filter (·.op.weight == n) = clauses.filter (·.op.weight == n)) :
    v.selection s sort context given = v.selection s sort context clauses := by
  have horder : Query.inOrderOfWeight given = Query.inOrderOfWeight clauses := by
    obtain ⟨hperm', hordered, hstable⟩ := isStableSort_inOrderOfWeight given
    refine IsStableSort.unique ⟨hperm'.trans hperm, hordered, fun c => ?_⟩
      (isStableSort_inOrderOfWeight clauses)
    have hclass : ∀ l : List Clause, l.filter (compareOn (·.op.weight) c · == .eq)
        = l.filter (·.op.weight == c.op.weight) := by
      intro l
      refine List.filter_congr fun x _ => ?_
      rw [compareOn, Bool.eq_iff_iff, beq_iff_eq, beq_iff_eq, Nat.compare_eq_eq, eq_comm]
    rw [hstable, hclass, hclass, h]
  rw [selection, selection, Query.compile, Query.compile, horder]

/-- **The order of clauses decides nothing but this**: orders of the same clauses have one
    outcome, unless there is no context and some document can get the clauses stuck while none
    has to. In that case every order misses a context or lists nothing, and there are orders of
    both sorts. Clauses of different weight may change places in any case. -/
theorem sameOutcome_perm_iff (hkeys : ∀ c ∈ clauses, ∃ a, v.resolve c.key = .ok a) :
    ((∀ given, given.Perm clauses →
        SameOutcome (v.selection s sort context clauses) (v.selection s sort context given)) ↔
      ¬ v.DependsOnOrder sort context clauses) ∧
    (v.DependsOnOrder sort context clauses →
      (∀ given, given.Perm clauses → MissesContext (v.selection s sort context given) ∨
        ∃ r, v.selection s sort context given = .ok r ∧ r.listed = []) ∧
      (∃ given, given.Perm clauses ∧ MissesContext (v.selection s sort context given)) ∧
      ∃ given, given.Perm clauses ∧ ¬ MissesContext (v.selection s sort context given)) ∧
    ∀ given, given.Perm clauses →
      (∀ n, given.filter (·.op.weight == n) = clauses.filter (·.op.weight == n)) →
      v.selection s sort context given = v.selection s sort context clauses := by
  refine ⟨⟨fun hsame hdepends => ?_, fun hnot given hperm => ?_⟩,
    fun hdepends => ⟨fun given hperm => missesContext_or_listed_eq_nil hkeys hdepends hperm,
      exists_orders_of_dependsOnOrder hkeys hdepends⟩,
    fun given hperm hclasses => selection_eq_of_filter_eq hperm hclasses⟩
  · obtain ⟨⟨given, hperm, hmisses⟩, given', hperm', hanswers⟩ :=
      exists_orders_of_dependsOnOrder (s := s) hkeys hdepends
    have hall := (hsame given hperm).missesContext_iff.mpr hmisses
    exact hanswers ((hsame given' hperm').missesContext_iff.mp hall)
  · by_cases hsort : ∀ f ∈ sort, ∃ a, v.resolve f.key = .ok a
    · refine sameOutcome_of_iff hkeys hsort hperm ⟨fun h => ?_, fun h => ?_⟩
      · refine Classical.byContradiction fun h' => hnot ?_
        exact dependsOnOrder_of_missesContext hkeys hsort (.refl _) hperm h h'
      · refine Classical.byContradiction fun h' => hnot ?_
        exact dependsOnOrder_of_missesContext hkeys hsort hperm (.refl _) h h'
    · obtain ⟨key, hfails⟩ := exists_selection_eq_error hsort s context
      rw [hfails clauses hkeys, hfails given (resolve_of_perm hkeys hperm)]
      exact .unresolved key

/-- Books on the list that is the context cannot be asked for without one, in whatever order:
    the book in the library comes to the clause that needs the link. -/
theorem sameOutcome_perm_iff_of_books :
    MissesContext (Sample.library.selection .default [] none Sample.booksOnList) ∧
      MissesContext (Sample.library.selection .default [] none Sample.booksOnList.reverse) ∧
      ¬ Sample.library.DependsOnOrder [] none Sample.booksOnList := by
  have hkeys : ∀ c ∈ Sample.booksOnList, ∃ a, Sample.library.resolve c.key = .ok a := by
    simp only [Sample.booksOnList, List.forall_mem_cons]
    exact ⟨⟨_, rfl⟩, ⟨_, rfl⟩, fun _ h => nomatch h⟩
  have hdune : Sample.dune ∈ Sample.library.documentList := List.mem_cons_self ..
  have hbook : Clause.Passes Sample.library none Sample.dune
      ⟨.field "type", .eq, .value (.text "book")⟩ :=
    ⟨fun _ => rfl, _, _, rfl, rfl, toOption_eq_some_iff.mp (by decide +kernel)⟩
  have hmust : MustGetStuck Sample.library Sample.dune Sample.booksOnList := by
    refine ⟨⟨.field "collection", .hasThis, .value .null⟩, by simp [Sample.booksOnList],
      Or.inl rfl, ?_⟩
    simp only [Sample.booksOnList, List.forall_mem_cons]
    exact ⟨fun _ => Or.inl hbook, fun _ => Or.inr (Or.inl rfl), fun _ h => nomatch h⟩
  have hmisses : MissesContext (Sample.library.selection .default [] none Sample.booksOnList) :=
    missesContext_of_mustGetStuck hkeys (fun _ h => nomatch h) (.refl _) hdune (fun _ => rfl) hmust
  have hnot : ¬ Sample.library.DependsOnOrder [] none Sample.booksOnList :=
    fun h => h.needNot Sample.dune hdune (fun _ => rfl) hmust
  refine ⟨hmisses, ?_, hnot⟩
  have hsame : SameOutcome (Sample.library.selection .default [] none Sample.booksOnList)
      (Sample.library.selection .default [] none Sample.booksOnList.reverse) :=
    (sameOutcome_perm_iff hkeys).1.mpr hnot _ (List.reverse_perm _)
  exact hsame.missesContext_iff.mp hmisses

/-- Asked for what has a late status and is on a list, and then the other way round, without a
    context: the library lists nothing, and then it misses the context. -/
theorem not_sameOutcome_of_reverse :
    (∀ c ∈ Sample.lateOnList, ∃ a, Sample.library.resolve c.key = .ok a) ∧
      Sample.lateOnList.reverse.Perm Sample.lateOnList ∧
      (∃ r, Sample.library.selection .default [] none Sample.lateOnList = .ok r ∧
        r.listed = []) ∧
      MissesContext (Sample.library.selection .default [] none Sample.lateOnList.reverse) ∧
      ¬ SameOutcome (Sample.library.selection .default [] none Sample.lateOnList)
        (Sample.library.selection .default [] none Sample.lateOnList.reverse) := by
  have hkeys : ∀ c ∈ Sample.lateOnList, ∃ a, Sample.library.resolve c.key = .ok a := by
    simp only [Sample.lateOnList, List.forall_mem_cons]
    exact ⟨⟨_, rfl⟩, ⟨_, rfl⟩, fun _ h => nomatch h⟩
  -- both clauses have one weight and are tried as they are given
  have horder : Query.inOrderOfWeight Sample.lateOnList = Sample.lateOnList :=
    List.mergeSort_of_pairwise (by decide)
  have horder' : Query.inOrderOfWeight Sample.lateOnList.reverse = Sample.lateOnList.reverse :=
    List.mergeSort_of_pairwise (by decide)
  have hrun : ((Sample.library.selection .default [] none Sample.lateOnList).map fun r =>
      r.listed.isEmpty).toOption = some true := by
    rw [selection, Query.compile, horder]
    decide +kernel
  have hrun' : failure? (Sample.library.selection .default [] none Sample.lateOnList.reverse)
      = some (.missingContext "collection") := by
    rw [selection, Query.compile, horder']
    decide +kernel
  obtain ⟨r, hr, hempty⟩ := map_eq_ok_iff.mp (toOption_eq_some_iff.mp hrun)
  have hmisses : MissesContext
      (Sample.library.selection .default [] none Sample.lateOnList.reverse) :=
    ⟨_, failure?_eq_some_iff.mp hrun'⟩
  refine ⟨hkeys, List.reverse_perm _, ⟨r, hr, List.isEmpty_iff.mp hempty⟩, hmisses, fun hsame => ?_⟩
  exact (hsame.missesContext_iff.mpr hmisses).ne_ok r hr

end Vault
end VaultQuery
