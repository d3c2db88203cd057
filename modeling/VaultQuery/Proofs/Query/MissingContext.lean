import VaultQuery.Proofs.Order.StableSort
import VaultQuery.Proofs.Query.Conjunction

/-! # Testing without a context

    A test of a document goes through the clauses in the order of their weights and ends at the
    first one that does not pass. Without a context it fails if it comes to a clause that needs
    a link, and what stands before that clause depends on how clauses of one weight are
    arranged.

    * `GetsStuck`: the clauses come to one that needs a link;
    * `Query.missesContext_accepts_iff`: then a test fails, and otherwise it has an answer;
    * `CanGetStuck`, `MustGetStuck`: between these lies what depends on the arrangement;
    * `getsStuck_of_canGetStuck`, `mustGetStuck_of_getsStuck`: the arrangements at either end. -/

namespace VaultQuery

instance (c : Clause) : Decidable c.NeedsLink := inferInstanceAs (Decidable (_ ∨ _))

variable {α : Type} {v : Vault} {d : Document} {c : Clause} {clauses clauses' : List Clause}
  {s : Settings} {context : Option Document} {sort : List SortField} {q : Query}
  {link : Option String}

/-- The step fails for want of a context document. -/
def MissesContext (x : Except Failure α) : Prop := ∃ key, x = .error (.missingContext key)

theorem MissesContext.ne_ok {x : Except Failure α} (h : MissesContext x) (a : α) : x ≠ .ok a := by
  obtain ⟨key, rfl⟩ := h
  exact fun h => nomatch h

/-! ## One clause -/

/-- Without a link no clause passes that needs one. -/
theorem Clause.not_passes_of_needsLink (h : c.NeedsLink) : ¬ c.Passes v none d := by
  rintro ⟨-, a, w, -, hw, hholds⟩
  rcases h with hop | hdynamic
  · rw [hop] at hholds
    exact nomatch hholds
  · cases ho : c.operand with
    | value u =>
        rw [ho] at hdynamic
        exact nomatch hdynamic
    | linkToThis =>
        rw [ho] at hw
        exact nomatch hw

namespace Test

variable {t : Test}

/-- A clause that needs a link fails without one. -/
theorem missesContext_holds (h : ofClause v c = .ok t) (hneeds : c.NeedsLink) :
    MissesContext (t.holds d none) := by
  obtain ⟨hc, -, hvalue⟩ := spec_ofClause h
  rw [holds, hvalue, hc]
  cases ho : c.operand with
  | linkToThis => exact ⟨_, rfl⟩
  | value u =>
      rcases hneeds with hop | hdynamic
      · rw [hop]
        exact ⟨_, rfl⟩
      · rw [ho] at hdynamic
        cases hdynamic

/-- A test has an answer or misses a context. -/
theorem answers_or_missesContext (h : ofClause v c = .ok t) :
    (∃ b, t.holds d link = .ok b) ∨ MissesContext (t.holds d link) := by
  by_cases hlink : link.isSome = true ∨ ¬ c.NeedsLink
  · exact Or.inl (exists_holds h hlink d)
  · rw [not_or, Classical.not_not] at hlink
    have hnone : link = none := Option.not_isSome_iff_eq_none.mp hlink.1
    exact Or.inr (hnone ▸ missesContext_holds h hlink.2)

end Test

/-! ## All clauses -/

/-- The clauses before some clause that needs a link pass. -/
def GetsStuck (v : Vault) (d : Document) : List Clause → Prop
  | [] => False
  | c :: cs => c.NeedsLink ∨ c.Passes v none d ∧ GetsStuck v d cs

/-- The document is tested at all: if a clause is on a field, it has frontmatter. -/
def IsTested (clauses : List Clause) (d : Document) : Prop :=
  (∃ c ∈ clauses, c.key.isIntrinsic = false) → d.frontmatter.isSome = true

namespace Query

theorem allHold_answers_or_missesContext {ts : List Test}
    (h : ∀ t ∈ ts, ∃ c, Test.ofClause v c = .ok t) :
    (∃ b, allHold d link ts = .ok b) ∨ MissesContext (allHold d link ts) := by
  induction ts with
  | nil => exact Or.inl ⟨true, rfl⟩
  | cons t ts ih =>
      obtain ⟨⟨c, hc⟩, hts⟩ := List.forall_mem_cons.mp h
      rw [allHold]
      rcases Test.answers_or_missesContext hc with ⟨b, hb⟩ | ⟨key, hkey⟩
      · rw [hb]
        cases b with
        | true => exact ih hts
        | false => exact Or.inl ⟨false, rfl⟩
      · rw [hkey]
        exact Or.inr ⟨key, rfl⟩

/-- The test of a document has an answer or misses a context. -/
theorem accepts_answers_or_missesContext (h : compile v clauses sort context s = .ok q)
    (d : Document) : (∃ b, q.accepts d = .ok b) ∨ MissesContext (q.accepts d) := by
  have hready : ∀ t ∈ q.tests, ∃ c, Test.ofClause v c = .ok t := by
    intro t ht
    obtain ⟨c, -, hc⟩ := (mem_tests h).mp ht
    exact ⟨c, hc⟩
  rw [accepts]
  split
  · exact Or.inl ⟨false, rfl⟩
  · exact allHold_answers_or_missesContext hready

theorem missesContext_allHold_iff {ts : List Test}
    (hts : clauses.map (Test.ofClause v) = ts.map .ok) (hd : IsTested clauses d) :
    MissesContext (allHold d none ts) ↔ GetsStuck v d clauses := by
  induction clauses generalizing ts with
  | nil =>
      cases ts with
      | nil => exact ⟨fun h => h.ne_ok true rfl, False.elim⟩
      | cons t ts => cases hts
  | cons c clauses ih =>
      cases ts with
      | nil => cases hts
      | cons t ts =>
          rw [List.map_cons, List.map_cons, List.cons.injEq] at hts
          have hrest := ih hts.2 fun hfield =>
            hd (hfield.imp fun c' hc' => hc'.imp_left (List.mem_cons_of_mem c))
          have hpasses : c.Passes v none d ↔ t.holds d none = .ok true := by
            rw [Test.holds_eq_ok_iff hts.1]
            exact and_iff_right fun hfield => hd ⟨c, List.mem_cons_self .., hfield⟩
          rw [GetsStuck, allHold, hpasses]
          by_cases hneeds : c.NeedsLink
          · obtain ⟨key, hkey⟩ := Test.missesContext_holds (d := d) hts.1 hneeds
            rw [hkey]
            exact ⟨fun _ => Or.inl hneeds, fun _ => ⟨key, rfl⟩⟩
          · obtain ⟨b, hb⟩ := Test.exists_holds hts.1 (Or.inr hneeds) d
            rw [hb, or_iff_right hneeds]
            cases b with
            | true => exact hrest.trans (and_iff_right rfl).symm
            | false =>
                exact ⟨fun h => absurd rfl (h.ne_ok false),
                  fun h => Bool.noConfusion (Except.ok.inj h.1)⟩

/-- **Without a context a test fails exactly when the clauses get stuck.** -/
theorem missesContext_accepts_iff (h : compile v clauses sort none s = .ok q) :
    MissesContext (q.accepts d) ↔
      IsTested clauses d ∧ GetsStuck v d (inOrderOfWeight clauses) := by
  obtain ⟨htests, -⟩ := compile_eq_ok_iff.mp h
  have htested : IsTested clauses d ↔ (q.readsFrontmatter && d.frontmatter.isNone) = false := by
    rw [IsTested, ← readsFrontmatter_iff h]
    cases q.readsFrontmatter <;> cases d.frontmatter <;> simp
  have hsame : IsTested (inOrderOfWeight clauses) d ↔ IsTested clauses d := by
    simp only [IsTested, inOrderOfWeight, List.mem_mergeSort]
  rw [accepts]
  by_cases htest : IsTested clauses d
  · rw [if_neg (by simp [htested.mp htest]), contextLink_eq h, and_iff_right htest]
    exact missesContext_allHold_iff (collect_eq_ok_iff.mp htests) (hsame.mpr htest)
  · rw [if_pos (by simpa using fun hf => htest (htested.mpr hf))]
    exact ⟨fun h => absurd rfl (h.ne_ok false), fun h => absurd h.1 htest⟩

end Query

/-! ## Arrangements

    Clauses are tried in the order of their weights, and clauses of one weight in the order in
    which they were given. -/

/-- Some arrangement of the clauses gets stuck: all clauses lighter than one that needs a link
    pass. -/
def CanGetStuck (v : Vault) (d : Document) (clauses : List Clause) : Prop :=
  ∃ c ∈ clauses, c.NeedsLink ∧ ∀ x ∈ clauses, x.op.weight < c.op.weight → x.Passes v none d

/-- Every arrangement of the clauses gets stuck: all clauses not heavier than one that needs a
    link pass or need a link themselves. -/
def MustGetStuck (v : Vault) (d : Document) (clauses : List Clause) : Prop :=
  ∃ c ∈ clauses, c.NeedsLink ∧
    ∀ x ∈ clauses, x.op.weight ≤ c.op.weight → x.Passes v none d ∨ x.NeedsLink

theorem isTested_perm (h : clauses'.Perm clauses) : IsTested clauses' d ↔ IsTested clauses d := by
  simp only [IsTested, h.mem_iff]

theorem canGetStuck_perm (h : clauses'.Perm clauses) :
    CanGetStuck v d clauses' ↔ CanGetStuck v d clauses := by
  simp only [CanGetStuck, h.mem_iff]

theorem mustGetStuck_perm (h : clauses'.Perm clauses) :
    MustGetStuck v d clauses' ↔ MustGetStuck v d clauses := by
  simp only [MustGetStuck, h.mem_iff]

/-- Of two clauses the first is lighter, or they weigh the same and are related otherwise. -/
def LighterOr (r : Clause → Clause → Prop) (a b : Clause) : Prop :=
  a.op.weight < b.op.weight ∨ a.op.weight = b.op.weight ∧ r a b

/-- Clauses that are tried one after the other are sorted by their weights. -/
theorem isStableSort_inOrderOfWeight (clauses : List Clause) :
    IsStableSort (compareOn (·.op.weight)) clauses (Query.inOrderOfWeight clauses) := by
  have hle : (fun a b : Clause => decide (a.op.weight ≤ b.op.weight))
      = fun a b => (compareOn (·.op.weight) a b).isLE := by
    funext a b
    rw [compareOn, Bool.eq_iff_iff, decide_eq_true_iff, Nat.isLE_compare]
  rw [Query.inOrderOfWeight, hle]
  exact isStableSort_mergeSort clauses

/-- What holds between clauses as they were given holds between clauses of one weight as they
    are tried. -/
theorem inOrderOfWeight_pairwise {r : Clause → Clause → Prop} (h : clauses.Pairwise r) :
    (Query.inOrderOfWeight clauses).Pairwise (LighterOr r) := by
  refine ((isStableSort_inOrderOfWeight clauses).pairwise_then h).imp fun {a b} hab => ?_
  rw [compareOn, Nat.compare_eq_lt, Nat.compare_eq_eq] at hab
  exact hab

theorem inOrderOfWeight_sorted (clauses : List Clause) :
    (Query.inOrderOfWeight clauses).Pairwise (LighterOr fun _ _ => True) :=
  inOrderOfWeight_pairwise (List.pairwise_of_forall fun _ _ => trivial)

section Sorted

variable {r : Clause → Clause → Prop}

/-- Clauses get stuck no later than at one that needs a link, if those that can stand before it
    pass or need a link themselves. -/
theorem getsStuck_of_mem (hsorted : clauses.Pairwise r) (hc : c ∈ clauses)
    (hneeds : c.NeedsLink) (hbefore : ∀ x ∈ clauses, r x c → x.Passes v none d ∨ x.NeedsLink) :
    GetsStuck v d clauses := by
  induction clauses with
  | nil => exact nomatch hc
  | cons a cs ih =>
      obtain ⟨hfirst, hrest⟩ := List.pairwise_cons.mp hsorted
      obtain ⟨ha, hcs⟩ := List.forall_mem_cons.mp hbefore
      by_cases hneedsa : a.NeedsLink
      · exact Or.inl hneedsa
      · have hmem : c ∈ cs := by
          rcases List.mem_cons.mp hc with rfl | hmem
          · exact absurd hneeds hneedsa
          · exact hmem
        have hpass : a.Passes v none d := (ha (hfirst c hmem)).resolve_right hneedsa
        exact Or.inr ⟨hpass, ih hrest hmem hcs⟩

/-- What is not after the clause at which clauses get stuck passes. -/
theorem exists_mem_of_getsStuck (hsorted : clauses.Pairwise r) (h : GetsStuck v d clauses) :
    ∃ c ∈ clauses, c.NeedsLink ∧ ∀ x ∈ clauses, x = c ∨ r c x ∨ x.Passes v none d := by
  induction clauses with
  | nil => exact h.elim
  | cons a cs ih =>
      obtain ⟨hfirst, hrest⟩ := List.pairwise_cons.mp hsorted
      rcases h with hneeds | ⟨hpass, hstuck⟩
      · exact ⟨a, List.mem_cons_self .., hneeds,
          List.forall_mem_cons.mpr ⟨Or.inl rfl, fun x hx => Or.inr (Or.inl (hfirst x hx))⟩⟩
      · obtain ⟨c, hc, hneeds, hothers⟩ := ih hrest hstuck
        exact ⟨c, List.mem_cons_of_mem a hc, hneeds,
          List.forall_mem_cons.mpr ⟨Or.inr (Or.inr hpass), hothers⟩⟩

end Sorted

/-- However clauses are given, a test that has to get stuck does. -/
theorem getsStuck_of_mustGetStuck (h : MustGetStuck v d clauses) :
    GetsStuck v d (Query.inOrderOfWeight clauses) := by
  obtain ⟨c, hc, hneeds, hothers⟩ :=
    (mustGetStuck_perm (isStableSort_inOrderOfWeight clauses).perm).mpr h
  refine getsStuck_of_mem (inOrderOfWeight_sorted clauses) hc hneeds
    fun x hx hbefore => hothers x hx ?_
  rcases hbefore with hlt | ⟨heq, -⟩ <;> omega

/-- However clauses are given, a test gets stuck only if it can. -/
theorem canGetStuck_of_getsStuck (h : GetsStuck v d (Query.inOrderOfWeight clauses)) :
    CanGetStuck v d clauses := by
  obtain ⟨c, hc, hneeds, hothers⟩ := exists_mem_of_getsStuck (inOrderOfWeight_sorted clauses) h
  refine (canGetStuck_perm (isStableSort_inOrderOfWeight clauses).perm).mp
    ⟨c, hc, hneeds, fun x hx hlt => ?_⟩
  rcases hothers x hx with rfl | (hgt | ⟨heq, -⟩) | hpass
  · exact absurd hlt (Nat.lt_irrefl _)
  · omega
  · omega
  · exact hpass

/-- The clauses of one sort, and then the others. -/
def putFirst (p : Clause → Bool) (clauses : List Clause) : List Clause :=
  clauses.filter p ++ clauses.filter (!p ·)

theorem putFirst_perm (p : Clause → Bool) (clauses : List Clause) :
    (putFirst p clauses).Perm clauses :=
  List.filter_append_perm p clauses

theorem putFirst_pairwise (p : Clause → Bool) (clauses : List Clause) :
    (putFirst p clauses).Pairwise fun a b => p b = true → p a = true := by
  have hany : ∀ l : List Clause, l.Pairwise fun _ _ => True := fun _ =>
    List.pairwise_of_forall fun _ _ => trivial
  refine List.pairwise_append.mpr ⟨?_, ?_, ?_⟩
  · exact (hany _).imp_of_mem fun ha _ _ _ => (List.mem_filter.mp ha).2
  · refine (hany _).imp_of_mem fun _ hb _ hp => ?_
    have hnot := (List.mem_filter.mp hb).2
    rw [hp] at hnot
    exact nomatch hnot
  · exact fun a ha _ _ _ => (List.mem_filter.mp ha).2

/-- Given with those first that need a link, clauses get stuck if they can. -/
theorem getsStuck_of_canGetStuck (h : CanGetStuck v d clauses) :
    GetsStuck v d (Query.inOrderOfWeight (putFirst (·.NeedsLink) clauses)) := by
  have hperm := (isStableSort_inOrderOfWeight (putFirst (·.NeedsLink) clauses)).perm.trans
    (putFirst_perm ..)
  obtain ⟨c, hc, hneeds, hlighter⟩ := (canGetStuck_perm hperm).mpr h
  refine getsStuck_of_mem (inOrderOfWeight_pairwise (putFirst_pairwise ..)) hc hneeds
    fun x hx hbefore => ?_
  rcases hbefore with hlt | ⟨-, hfirst⟩
  · exact Or.inl (hlighter x hx hlt)
  · exact Or.inr (of_decide_eq_true (hfirst (decide_eq_true hneeds)))

/-- Given with those last that need a link, clauses get stuck only if they must. -/
theorem mustGetStuck_of_getsStuck
    (h : GetsStuck v d (Query.inOrderOfWeight (putFirst (¬ ·.NeedsLink) clauses))) :
    MustGetStuck v d clauses := by
  have hperm := (isStableSort_inOrderOfWeight (putFirst (¬ ·.NeedsLink) clauses)).perm.trans
    (putFirst_perm ..)
  obtain ⟨c, hc, hneeds, hothers⟩ :=
    exists_mem_of_getsStuck (inOrderOfWeight_pairwise (putFirst_pairwise ..)) h
  refine (mustGetStuck_perm hperm).mp ⟨c, hc, hneeds, fun x hx hle => ?_⟩
  rcases hothers x hx with rfl | (hlt | ⟨-, hfirst⟩) | hpass
  · exact Or.inr hneeds
  · omega
  · by_cases hneedsx : x.NeedsLink
    · exact Or.inr hneedsx
    · exact absurd hneeds (of_decide_eq_true (hfirst (decide_eq_true hneedsx)))
  · exact Or.inl hpass

end VaultQuery
