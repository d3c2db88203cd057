import Mathlib.Data.List.Nodup
import Mathlib.Data.List.Perm.Basic
import VaultQuery.Proofs.Failure.First
import VaultQuery.Proofs.Query.Effects

/-! # How enforcing ends

    Enforcing is refused for an operator, misses a link, or succeeds. Which of these happens,
    and what is written, is read off the clauses; and a failure leaves the frontmatter alone,
    although tests before it may have been enforced already.

    * `Clause.change_eq_error_iff`: on a field, a change fails for want of a link only;
    * `Query.revise`: enforcing as a program that changes frontmatter in place, and
      `Query.run_revise`: it does all or nothing;
    * `Vault.amendAll_perm`: changes of different fields may be made in any order;
    * `Query.isSettled_of_compile`: the end of enforcing for all queries. -/

namespace VaultQuery

/-! ## Failures of clauses -/

/-- An operator that can be enforced misses nothing but a link. -/
theorem Operator.effect_eq_error_iff {op : Operator} {key : Key} {w : Value}
    {link : Option String} {e : Failure} (hop : op.canEnforce = true) :
    op.effect key w link = .error e ↔
      link = none ∧ op = .hasThis ∧ e = .missingContext key.name := by
  cases op with
  | hasThis => cases link <;> simp [effect, thisLink, Except.map, eq_comm]
  | eq => simp [effect]
  | isEmpty => simp [effect]
  | hasAll => simp [effect]
  | gte => simp [effect]
  | lte => simp [effect]
  | _ => cases hop

/-- So does an operand. -/
theorem Operand.resolve_eq_error_iff {o : Operand} {a : Attribute} {link : Option String}
    {e : Failure} :
    o.resolve a link = .error e ↔
      link = none ∧ o.isDynamic = true ∧ e = .missingContext a.key.name := by
  cases o with
  | value w => simp [resolve, isDynamic]
  | linkToThis => cases link <;> simp [resolve, isDynamic, thisLink, Except.map, eq_comm]

/-- On a readable field, **a change fails for want of a link only**, if the operator can be
    enforced. -/
theorem Clause.change_eq_error_iff {v : Vault} {link : Option String} {c : Clause}
    {name : String} {e : Failure} (hc : c.OnField name) (hop : c.op.canEnforce = true) :
    c.change v link = .error e ↔ link = none ∧ c.NeedsLink ∧ e = .missingContext name := by
  have hmap : c.change v link = .error e ↔ c.effect v link = .error e := map_eq_error_iff
  rw [hmap, hc.effect_eq, NeedsLink]
  cases hw : c.operand.resolve (.field name (v.kindOf name)) link with
  | error e' =>
      obtain ⟨hlink, hdynamic, rfl⟩ := Operand.resolve_eq_error_iff.mp hw
      simp [Except.bind, hlink, hdynamic, Attribute.key, Key.name, eq_comm]
  | ok w =>
      -- the operand resolved, so that a link is there or it is none
      have hresolved : link = none → c.operand.isDynamic = false := by
        intro hlink
        refine Bool.eq_false_iff.mpr fun hdynamic => ?_
        have herror : c.operand.resolve (.field name (v.kindOf name)) link = .error _ :=
          Operand.resolve_eq_error_iff.mpr ⟨hlink, hdynamic, rfl⟩
        rw [hw] at herror
        cases herror
      show c.op.effect (.field name) w link = .error e ↔ _
      rw [Operator.effect_eq_error_iff hop]
      refine and_congr_right fun hlink => and_congr_left fun _ => ?_
      simp [hresolved hlink]

namespace Clause

variable {v : Vault} {link : Option String} {clauses : List Clause} {e : Failure}

/-- The clauses on fields can be read. -/
def Readable (clauses : List Clause) : Prop := ∀ c ∈ onFields clauses, ∃ name, c.OnField name

/-- Changes that can all be enforced fail at the first clause that needs a link. -/
theorem collect_change_eq_error_iff (hread : Readable clauses)
    (hops : ∀ c ∈ clauses, c.op.canEnforce = true) :
    collect (change v link) (onFields clauses) = .error e ↔
      link = none ∧ ∃ c, IsFirst NeedsLink (onFields clauses) c ∧
        e = .missingContext c.key.name := by
  have hfails : ∀ c ∈ onFields clauses, ∀ e, c.change v link = .error e ↔
      link = none ∧ c.NeedsLink ∧ e = .missingContext c.key.name := by
    intro c hc e
    obtain ⟨name, hname⟩ := hread c hc
    rw [change_eq_error_iff hname (hops c (mem_onFields.mp hc).1), hname.1]
    rfl
  rw [collect_eq_error_iff]
  cases link with
  | some l =>
      refine iff_of_false ?_ fun h => nomatch h.1
      rintro ⟨c, hfirst, he⟩
      exact nomatch ((hfails c hfirst.mem e).mp he).1
  | none =>
      rw [and_iff_right rfl]
      refine exists_congr fun c => ?_
      have hsame : IsFirst (fun c => ∃ e, c.change v none = .error e) (onFields clauses) c ↔
          IsFirst NeedsLink (onFields clauses) c := by
        refine isFirst_congr fun c hc => ?_
        simp [hfails c hc]
      rw [hsame]
      refine and_congr_right fun hfirst => ?_
      rw [hfails c hfirst.mem]
      simp [hfirst.holds]

/-- Changes are made if all operators can be enforced and no link is missed. -/
theorem exists_changes_iff (hread : Readable clauses) :
    (∃ xs, changes v link clauses = .ok xs) ↔
      (∀ c ∈ clauses, c.op.canEnforce = true) ∧
        (link = none → ∀ c ∈ onFields clauses, ¬ c.NeedsLink) := by
  simp only [changes_eq_ok_iff, exists_and_left]
  refine and_congr_right fun hops => ?_
  simp only [← collect_eq_ok_iff]
  cases hcollect : collect (change v link) (onFields clauses) with
  | ok xs =>
      refine iff_of_true ⟨xs, rfl⟩ fun hlink c hc hneeds => ?_
      obtain ⟨first, hfirst⟩ := exists_isFirst_iff.mpr ⟨c, hc, hneeds⟩
      have herror : collect (change v link) (onFields clauses)
          = .error (.missingContext first.key.name) :=
        (collect_change_eq_error_iff hread hops).mpr ⟨hlink, first, hfirst, rfl⟩
      rw [hcollect] at herror
      exact nomatch herror
  | error e =>
      obtain ⟨hlink, c, hfirst, -⟩ := (collect_change_eq_error_iff hread hops).mp hcollect
      exact iff_of_false (fun ⟨_, h⟩ => nomatch h)
        fun hnone => hnone hlink c hfirst.mem hfirst.holds

/-- Changes are refused at the first operator that cannot be enforced. -/
theorem changes_eq_notCreatable_iff (hread : Readable clauses) {name : String} :
    changes v link clauses = .error (.notCreatable name) ↔
      ∃ c, IsFirst (·.op.canEnforce = false) clauses c ∧ c.op.name = name := by
  have hfind : ∀ c, clauses.find? (!·.op.canEnforce) = some c ↔
      IsFirst (·.op.canEnforce = false) clauses c := by
    intro c
    rw [find?_eq_some_iff_isFirst]
    simp
  simp only [← hfind]
  rw [changes]
  cases h : clauses.find? (!·.op.canEnforce) with
  | some c => simp
  | none =>
      have hall : ∀ c ∈ clauses, c.op.canEnforce = true := by
        simpa using List.find?_eq_none.mp h
      simp [collect_change_eq_error_iff hread hall]

/-- Changes miss a link at the first clause that needs one, if nothing is refused. -/
theorem changes_eq_missingContext_iff (hread : Readable clauses) {key : String} :
    changes v link clauses = .error (.missingContext key) ↔
      (∀ c ∈ clauses, c.op.canEnforce = true) ∧ link = none ∧
        ∃ c, IsFirst NeedsLink (onFields clauses) c ∧ c.key.name = key := by
  by_cases hops : ∀ c ∈ clauses, c.op.canEnforce = true
  · rw [changes_eq_collect hops, and_iff_right hops, collect_change_eq_error_iff hread hops]
    simp [eq_comm]
  · obtain ⟨name, hname⟩ : ∃ name, changes v link clauses = .error (.notCreatable name) :=
      exists_changes_eq_notCreatable hops
    rw [hname]
    exact iff_of_false (by simp) fun h => hops h.1

end Clause

/-! ## Enforcing in place -/

/-- Programs that change frontmatter; a failure leaves it as far as they came. -/
abbrev Revision := EStateM Failure Frontmatter

/-- The end of a program that does all that was said, or fails in the frontmatter it began
    with. -/
def Revision.settle (f : Frontmatter) :
    Except Failure Frontmatter → EStateM.Result Failure Frontmatter Unit
  | .ok f' => .ok () f'
  | .error e => .error e f

namespace Query

/-- A query enforced in place: its tests are enforced on a copy, one after the other, and the
    copy takes the place of the frontmatter at the end. -/
def revise (q : Query) : Revision Unit := do
  if let some c := q.clauses.find? (!·.op.canEnforce) then
    throw (.notCreatable c.op.name)
  let mut staged ← get
  for t in q.tests do
    staged ← ofExcept (enforceTest q.contextLink staged t)
  set staged

/-- The loop over the tests leaves the frontmatter itself alone. -/
theorem run_forIn (link : Option String) (f staged : Frontmatter) (ts : List Test) :
    (forIn ts staged fun t staged => do
        let staged ← ofExcept (enforceTest link staged t)
        pure (ForInStep.yield staged) : Revision Frontmatter).run f
      = match enforceAll link staged ts with
        | .ok staged => .ok staged f
        | .error e => .error e f := by
  induction ts generalizing staged with
  | nil => rfl
  | cons t ts ih =>
      rw [List.forIn_cons, enforceAll]
      cases h : enforceTest link staged t with
      | error e => rfl
      | ok g => exact ih g

/-- **Enforcing in place does all or nothing.** -/
theorem run_revise (q : Query) (f : Frontmatter) :
    q.revise.run f = Revision.settle f (q.enforce f) := by
  rw [enforce, revise]
  cases q.clauses.find? (!·.op.canEnforce) with
  | some c => rfl
  | none =>
      have hloop := run_forIn q.contextLink f f q.tests
      show EStateM.bind (forIn q.tests f _ : Revision Frontmatter) (fun staged => set staged) f
        = Revision.settle f (enforceAll q.contextLink f q.tests)
      rw [EStateM.bind, show (forIn q.tests f _ : Revision Frontmatter) f = _ from hloop]
      cases enforceAll q.contextLink f q.tests <;> rfl

end Query

/-! ## The order of changes -/

section Order

variable {v : Vault} {x y : Change} {xs ys : List Change}

/-- Changes of two fields may change places. -/
theorem Vault.amend_comm (h : x.field ≠ y.field) (f : Frontmatter) :
    v.amend (v.amend f x) y = v.amend (v.amend f y) x := by
  have hx : v.fieldValue (v.amend f x) y.field = v.fieldValue f y.field :=
    v.fieldValue_insert_of_ne f _ h
  have hy : v.fieldValue (v.amend f y) x.field = v.fieldValue f x.field :=
    v.fieldValue_insert_of_ne f _ (Ne.symm h)
  calc v.amend (v.amend f x) y
      = (v.amend f x).insert y.field (y.effect.apply (v.fieldValue f y.field)) := by
        rw [amend, hx]
    _ = (v.amend f y).insert x.field (x.effect.apply (v.fieldValue f x.field)) :=
        Dictionary.insert_comm h f _ _
    _ = v.amend (v.amend f y) x := by rw [amend.eq_def v (v.amend f y), hy]

/-- **Changes of different fields may be made in any order.** -/
theorem Vault.amendAll_perm (hperm : xs.Perm ys) (hfields : (xs.map (·.field)).Nodup)
    (f : Frontmatter) : v.amendAll f xs = v.amendAll f ys := by
  refine hperm.foldl_eq' (fun x hx y hy g => ?_) f
  by_cases hfield : x.field = y.field
  · rw [List.inj_on_of_nodup_map hfields hx hy hfield]
  · exact amend_comm hfield g

/-- Clauses in another order make the same changes in another order. -/
theorem Clause.changes_perm {link : Option String} {clauses clauses' : List Clause}
    (hperm : clauses'.Perm clauses) (h : changes v link clauses = .ok xs) :
    ∃ ys, changes v link clauses' = .ok ys ∧ ys.Perm xs := by
  obtain ⟨hops, hmap⟩ := changes_eq_ok_iff.mp h
  have hfields : (onFields clauses').Perm (onFields clauses) := hperm.filter _
  obtain ⟨ys, hys⟩ : ∃ ys, collect (change v link) (onFields clauses') = .ok ys := by
    refine exists_collect_iff.mpr fun c hc => ?_
    exact exists_collect_iff.mp ⟨xs, collect_eq_ok_iff.mpr hmap⟩ c (hfields.mem_iff.mp hc)
  rw [collect_eq_ok_iff] at hys
  refine ⟨ys, changes_eq_ok_iff.mpr ⟨fun c hc => hops c (hperm.mem_iff.mp hc), hys⟩, ?_⟩
  have hresults : (ys.map Except.ok).Perm (xs.map (Except.ok : Change → Except Failure Change)) := by
    rw [← hys, ← hmap]
    exact hfields.map _
  exact (List.map_perm_map_iff fun _ _ heq => Except.ok.inj heq).mp hresults

end Order

/-! ## A query -/

namespace Query

variable {v : Vault} {s : Settings} {context : Option Document} {sort : List SortField}
  {clauses : List Clause} {q : Query}

/-- What enforcing the query `q` of some clauses does to any frontmatter. -/
structure IsSettled (context : Option Document) (clauses : List Clause) (q : Query) : Prop where
  /-- It is refused if some operator cannot be enforced. -/
  refused : ∀ f, (∃ name, q.enforce f = .error (.notCreatable name)) ↔
    ∃ c ∈ clauses, c.op.canEnforce = false
  canCreate : q.canCreate = false ↔ ∃ c ∈ clauses, c.op.canEnforce = false
  /-- The refusal names the first such operator in the order in which clauses are tried. -/
  refusal : ∀ f name, q.enforce f = .error (.notCreatable name) →
    ∃ c, IsFirst (·.op.canEnforce = false) q.clauses c ∧ c.op.name = name
  /-- Otherwise it misses a link if there is no context and a clause on a field needs one. -/
  missed : ∀ f, (∃ key, q.enforce f = .error (.missingContext key)) ↔
    q.canCreate = true ∧ context = none ∧
      ∃ c ∈ clauses, c.key.isIntrinsic = false ∧ c.NeedsLink
  /-- The failure names the key of the first such clause. -/
  missing : ∀ f key, q.enforce f = .error (.missingContext key) →
    ∃ c, IsFirst Clause.NeedsLink (Clause.onFields q.clauses) c ∧ c.key.name = key
  /-- Otherwise it succeeds. -/
  succeeds : ∀ f, (∃ f', q.enforce f = .ok f') ↔
    q.canCreate = true ∧
      (context = none → ∀ c ∈ clauses, c.key.isIntrinsic = false → ¬ c.NeedsLink)
  /-- Done in place, it leaves the frontmatter as it was when it fails. -/
  failed : ∀ f e f', q.revise.run f = .error e f' ↔ q.enforce f = .error e ∧ f' = f
  done : ∀ f f', q.revise.run f = .ok () f' ↔ q.enforce f = .ok f'
  /-- Fields that no clause is on stay as they are. -/
  untouched : ∀ f f', q.enforce f = .ok f' → ∀ name, (∀ c ∈ clauses, c.key ≠ .field name) →
    f'.get? name = f.get? name
  /-- Fields that a clause is on are there. -/
  written : ∀ f f', q.enforce f = .ok f' → ∀ c ∈ clauses, ∀ name, c.key = .field name →
    ∃ x, f'.get? name = some x

/-- The clauses of a compiled query that are on fields can be read. -/
theorem readable_clauses (h : compile v clauses sort context s = .ok q) :
    Clause.Readable q.clauses := by
  intro c hc
  obtain ⟨hmem, hfield⟩ := Clause.mem_onFields.mp hc
  obtain ⟨t, ht, rfl⟩ := List.mem_map.mp hmem
  rcases isIntrinsic_or_onField (isReady_of_mem_tests h ht).1 with hintrinsic | hname
  · rw [hfield] at hintrinsic
    exact nomatch hintrinsic
  · exact hname

/-- What enforcing does is settled by the clauses. -/
theorem isSettled_of_compile (h : compile v clauses sort context s = .ok q) :
    IsSettled context clauses q := by
  have hperm : ∀ c, c ∈ q.clauses ↔ c ∈ clauses := fun c => (clauses_perm h).mem_iff
  have hread := readable_clauses h
  have hcreate : q.canCreate = true ↔ ∀ c ∈ q.clauses, c.op.canEnforce = true := by
    simp [canCreate]
  have herror : ∀ f e, q.enforce f = .error e ↔
      Clause.changes v (context.map v.link) q.clauses = .error e := by
    intro f e
    rw [enforce_eq_map_changes h]
    exact map_eq_error_iff
  have hrun := q.run_revise
  exact {
    refused := by
      intro f
      simp only [herror, Clause.changes_eq_notCreatable_iff hread]
      rw [exists_comm]
      simp only [exists_and_left, exists_eq', and_true, exists_isFirst_iff, hperm]
    canCreate := by
      simp [Query.canCreate, hperm]
    refusal := by
      intro f name
      rw [herror, Clause.changes_eq_notCreatable_iff hread]
      exact id
    missed := by
      intro f
      simp only [herror, Clause.changes_eq_missingContext_iff hread, hcreate,
        Option.map_eq_none_iff, exists_and_left]
      rw [exists_comm]
      simp only [exists_and_left, exists_eq', and_true, exists_isFirst_iff, hperm,
        Clause.mem_onFields, and_assoc]
    missing := by
      intro f key
      rw [herror, Clause.changes_eq_missingContext_iff hread]
      exact fun hmissing => hmissing.2.2
    succeeds := by
      intro f
      have hchanges : (∃ f', q.enforce f = .ok f') ↔
          ∃ xs, Clause.changes v (context.map v.link) q.clauses = .ok xs := by
        rw [enforce_eq_map_changes h]
        exact exists_map_eq_ok_iff
      rw [hchanges, Clause.exists_changes_iff hread, hcreate, Option.map_eq_none_iff]
      simp only [Clause.mem_onFields, hperm, and_imp]
    failed := by
      intro f e f'
      rw [hrun]
      cases q.enforce f <;> simp [Revision.settle, eq_comm]
    done := by
      intro f f'
      rw [hrun]
      cases q.enforce f <;> simp [Revision.settle]
    untouched := fun f f' henforce name => (get?_of_enforce h henforce name).1
    written := fun f f' henforce c hc name hkey =>
      (get?_of_enforce h henforce name).2 ⟨c, hc, hkey⟩ }

/-- Clauses on different fields have different names of fields. -/
theorem nodup_map_field {link : Option String} {xs : List Change}
    (hkeys : ((Clause.onFields clauses).map (·.key)).Nodup)
    (h : Clause.changes v link clauses = .ok xs) : (xs.map (·.field)).Nodup := by
  rw [Clause.map_field (Clause.changes_eq_ok_iff.mp h).2]
  refine List.Nodup.map_on (fun c hc c' hc' hname => ?_) hkeys.of_map
  refine List.inj_on_of_nodup_map hkeys hc hc' ?_
  calc c.key
      = .field c.key.name := (Key.field_name (Clause.mem_onFields.mp hc).2).symm
    _ = .field c'.key.name := congrArg Key.field hname
    _ = c'.key := Key.field_name (Clause.mem_onFields.mp hc').2

/-- Queries of the same clauses, each on a field of its own, write the same. -/
theorem enforce_of_perm {clauses' : List Clause} {q' : Query}
    (h : compile v clauses sort context s = .ok q)
    (h' : compile v clauses' sort context s = .ok q') (hperm : clauses'.Perm clauses)
    (hkeys : ((Clause.onFields clauses).map (·.key)).Nodup) {f f' : Frontmatter}
    (henforce : q.enforce f = .ok f') : q'.enforce f = .ok f' := by
  rw [enforce_eq_map_changes h] at henforce
  obtain ⟨xs, hxs, rfl⟩ := map_eq_ok_iff.mp henforce
  have hclauses : q'.clauses.Perm q.clauses :=
    (clauses_perm h').trans (hperm.trans (clauses_perm h).symm)
  obtain ⟨ys, hys, hsame⟩ := Clause.changes_perm hclauses hxs
  have hfields : (Clause.onFields q'.clauses).Perm (Clause.onFields clauses) :=
    (hclauses.trans (clauses_perm h)).filter _
  have hnodup : (ys.map (·.field)).Nodup :=
    nodup_map_field ((hfields.map _).nodup_iff.mpr hkeys) hys
  rw [enforce_eq_map_changes h', hys]
  exact congrArg Except.ok (Vault.amendAll_perm hsame hnodup f)

/-- **How enforcing ends is read off the clauses**, for any frontmatter; a failure leaves it as
    it was; and clauses each on a field of its own may be given in any order. -/
theorem isSettled_enforce (h : compile v clauses sort context s = .ok q) :
    IsSettled context clauses q ∧
      ∀ clauses' : List Clause, clauses'.Perm clauses →
        ((Clause.onFields clauses).map (·.key)).Nodup →
        ∃ q', compile v clauses' sort context s = .ok q' ∧
          ∀ f f', q'.enforce f = .ok f' ↔ q.enforce f = .ok f' := by
  refine ⟨isSettled_of_compile h, fun clauses' hperm hkeys => ?_⟩
  obtain ⟨q', h'⟩ : ∃ q', compile v clauses' sort context s = .ok q' := by
    obtain ⟨hclauses, hsort⟩ := exists_compile_iff.mp ⟨q, h⟩
    exact exists_compile_iff.mpr ⟨fun c hc => hclauses c (hperm.mem_iff.mp hc), hsort⟩
  have hkeys' : ((Clause.onFields clauses').map (·.key)).Nodup :=
    ((hperm.filter _).map _).nodup_iff.mpr hkeys
  exact ⟨q', h', fun f f' => ⟨enforce_of_perm h' h hperm.symm hkeys',
    enforce_of_perm h h' hperm hkeys⟩⟩

/-- A book put on the list that is the context, by clauses in either order. -/
theorem isSettled_enforce_of_book :
    ∃ q q' f', compile Sample.library Sample.booksOnList [] (some Sample.readingList) .default
        = .ok q ∧
      compile Sample.library Sample.booksOnList.reverse [] (some Sample.readingList) .default
        = .ok q' ∧
      q.revise.run .empty = .ok () f' ∧ q'.enforce .empty = .ok f' := by
  have hkeys : ∀ c ∈ Sample.booksOnList, ∃ a, Sample.library.resolve c.key = .ok a := by
    intro c hc
    simp only [Sample.booksOnList, List.mem_cons, List.not_mem_nil, or_false] at hc
    rcases hc with rfl | rfl
    · exact ⟨_, Vault.resolve_field _ (by decide)⟩
    · exact ⟨_, Vault.resolve_field _ (by decide)⟩
  obtain ⟨q, h⟩ : ∃ q, compile Sample.library Sample.booksOnList [] (some Sample.readingList)
      .default = .ok q :=
    exists_compile_iff.mpr ⟨hkeys, fun _ hf => nomatch hf⟩
  obtain ⟨hsettled, horder⟩ := isSettled_enforce h
  have hcreate : q.canCreate = true :=
    Bool.not_eq_false _ ▸ mt hsettled.canCreate.mp (by decide)
  obtain ⟨f', hf'⟩ := (hsettled.succeeds .empty).mpr ⟨hcreate, fun hnone => nomatch hnone⟩
  obtain ⟨q', h', hsame⟩ := horder _ (List.reverse_perm _) (by decide)
  exact ⟨q, q', f', h, h', (hsettled.done .empty f').mpr hf', (hsame .empty f').mpr hf'⟩

end Query
end VaultQuery
