import VaultQuery.Proofs.Query.Effects
import VaultQuery.Proofs.Query.Union
import VaultQuery.Proofs.Value.Literal

/-! # Enforcing twice

    What a query makes of frontmatter it leaves alone when it is enforced again, however many
    of its clauses are on one field. Where one of them puts a value in place, what was there
    before does not count; where all of them add to a list, all they want is there already,
    unless it is a NaN, which is never found.

    * `Effect.applyAll_of_replace`: a value put in place hides what was there;
    * `Effect.applyAll_applyAll`: effects have no effect on what they left;
    * `Query.enforce_enforce`: so for a query in which no list is asked to have a NaN, such as
      every query of parsed clauses. -/

namespace VaultQuery

namespace Effect

/-- A wanted value contains a NaN. -/
def WantsNaN (e : Effect) : Prop := ∃ wanted, e = .extend wanted ∧ ∃ u ∈ wanted, u.hasNaN = true

variable {k : Kind} {es : List Effect} {stored : Option Value}

/-- Effects one of which puts a value in place do the same to everything. -/
theorem applyAll_of_replace {w : Value} (h : .replace w ∈ es) (stored stored' : Option Value) :
    applyAll k stored es = applyAll k stored' es := by
  induction es generalizing stored stored' with
  | nil => exact nomatch h
  | cons e es ih =>
      rcases List.mem_cons.mp h with rfl | hmem
      · rfl
      · exact ih hmem (store k stored e) (store k stored' e)

/-- **Effects have no effect on what they left.** -/
theorem applyAll_applyAll (h : ∀ e ∈ es, ¬ e.WantsNaN) :
    applyAll k (applyAll k stored es) es = applyAll k stored es := by
  by_cases hreplace : ∃ w, .replace w ∈ es
  · obtain ⟨w, hw⟩ := hreplace
    exact applyAll_of_replace hw ..
  · obtain ⟨wanted, rfl⟩ := exists_eq_map_extend (not_exists.mp hreplace)
    have hclean : ∀ u ∈ wanted.flatten, u.hasNaN = false := by
      intro u hu
      obtain ⟨ws, hws, huws⟩ := List.mem_flatten.mp hu
      refine Bool.eq_false_iff.mpr fun hnan => ?_
      exact h _ (List.mem_map_of_mem hws) ⟨ws, rfl, u, huws, hnan⟩
    cases wanted with
    | nil => rfl
    | cons ws wanted =>
        have hne : ws :: wanted ≠ [] := List.cons_ne_nil ws wanted
        rw [applyAll_extend hne, applyAll_extend hne]
        -- what was left is a list, and has the wanted items
        simp only [Option.getD_some, Kind.coerce_list, currentItems, Value.items?]
        rw [addMissing_addMissing hclean]

end Effect

namespace Clause

variable {v : Vault} {link : Option String} {c : Clause} {e : Effect}

/-- The clause asks that a list has a value with a NaN. -/
def WantsNaN (v : Vault) (link : Option String) (c : Clause) : Prop :=
  c.op = .hasAll ∧ ∃ a w, v.resolve c.key = .ok a ∧ c.operand.resolve a link = .ok w ∧
    w.hasNaN = true

/-- Only such a clause has an effect that wants a NaN. -/
theorem wantsNaN_of_effect (he : c.effect v link = .ok e) (h : e.WantsNaN) :
    c.WantsNaN v link := by
  obtain ⟨wanted, rfl, u, hu, hnan⟩ := h
  obtain ⟨a, ha, hrest⟩ := bind_eq_ok_iff.mp he
  obtain ⟨w, hw, heffect⟩ := bind_eq_ok_iff.mp hrest
  rcases Operator.effect_eq_extend_iff.mp heffect with ⟨hop, rfl⟩ | ⟨-, l, -, rfl⟩
  · refine ⟨hop, a, w, ha, hw, Bool.not_eq_false _ ▸ fun hclean => ?_⟩
    rw [Value.hasNaN_eq_false_iff.mp hclean u hu] at hnan
    exact nomatch hnan
  · rw [List.mem_singleton.mp hu] at hnan
    exact nomatch hnan

/-- A literal without a NaN is no request for one, whatever the kind of the field. -/
theorem not_wantsNaN_of_literal (h : c.operand.literal.hasNaN = false) (v : Vault)
    (link : Option String) : ¬ c.WantsNaN v link := by
  rintro ⟨-, a, w, -, hw, hnan⟩
  cases ho : c.operand with
  | value u =>
      rw [ho] at h hw
      cases hw
      have hclean : u.hasNaN = false := h
      rw [a.kind.hasNaN_coerce hclean] at hnan
      exact nomatch hnan
  | linkToThis =>
      rw [ho] at hw
      obtain ⟨l, -, rfl⟩ := Operand.resolve_linkToThis.mp hw
      exact nomatch hnan

/-- A parsed clause has a literal without a NaN. -/
theorem hasNaN_literal_of_ofExpression {expression : String}
    (h : ofExpression expression = .ok c) : c.operand.literal.hasNaN = false := by
  cases ho : c.operand with
  | value w => exact hasNaN_eq_false_of_ofExpression h ho
  | linkToThis => rfl

end Clause

namespace Query

variable {v : Vault} {s : Settings} {context : Option Document} {sort : List SortField}
  {clauses : List Clause} {q : Query}

/-- Changes that want no NaN change nothing when they are made again. -/
theorem amendAll_amendAll {link : Option String} {xs : List Change}
    (h : Clause.changes v link clauses = .ok xs) (hnan : ∀ c ∈ clauses, ¬ c.WantsNaN v link)
    (f : Frontmatter) : v.amendAll (v.amendAll f xs) xs = v.amendAll f xs := by
  refine Dictionary.eq_of_get? fun name => ?_
  rw [Vault.get?_amendAll, Vault.get?_amendAll]
  refine Effect.applyAll_applyAll fun e he hwants => ?_
  obtain ⟨c, hc, -, heffect⟩ := (mem_effectsOn h).mp he
  exact hnan c hc (Clause.wantsNaN_of_effect heffect hwants)

/-- **Enforcing twice is enforcing once**, if no list is asked to have a NaN; and no clause
    without a NaN in its literal, such as any parsed one, asks that. -/
theorem enforce_enforce (h : compile v clauses sort context s = .ok q) :
    ((∀ c ∈ clauses, ¬ c.WantsNaN v (context.map v.link)) →
      ∀ f f', q.enforce f = .ok f' → q.enforce f' = .ok f') ∧
    (∀ c ∈ clauses, c.operand.literal.hasNaN = false →
      ¬ c.WantsNaN v (context.map v.link)) ∧
    ∀ c ∈ clauses, (∃ expression, Clause.ofExpression expression = .ok c) →
      c.operand.literal.hasNaN = false := by
  refine ⟨fun hnan f f' henforce => ?_,
    fun c _ hc => Clause.not_wantsNaN_of_literal hc v (context.map v.link),
    fun c _ ⟨_, hc⟩ => Clause.hasNaN_literal_of_ofExpression hc⟩
  rw [enforce_eq_map_changes h] at henforce ⊢
  obtain ⟨xs, hxs, rfl⟩ := map_eq_ok_iff.mp henforce
  have hclauses : ∀ c ∈ q.clauses, ¬ c.WantsNaN v (context.map v.link) :=
    fun c hc => hnan c ((clauses_perm h).mem_iff.mp hc)
  rw [hxs]
  exact congrArg Except.ok (amendAll_amendAll hxs hclauses f)

/-- A book put on two lists by two clauses on one field, and put there again. -/
theorem enforce_enforce_of_lists :
    ∃ q f', compile Sample.library Sample.booksOnLists [] (some Sample.readingList) .default
        = .ok q ∧
      q.enforce .empty = .ok f' ∧ q.enforce f' = .ok f' := by
  have hfields : ∀ c ∈ Sample.booksOnLists, ∃ name, c.OnField name := by
    intro c hc
    simp only [Sample.booksOnLists, List.mem_cons, List.not_mem_nil, or_false] at hc
    rcases hc with rfl | rfl | rfl
    · exact ⟨_, rfl, by decide⟩
    · exact ⟨_, rfl, by decide⟩
    · exact ⟨_, rfl, by decide⟩
  obtain ⟨q, h⟩ : ∃ q, compile Sample.library Sample.booksOnLists [] (some Sample.readingList)
      .default = .ok q := by
    refine exists_compile_iff.mpr ⟨fun c hc => ?_, by simp⟩
    obtain ⟨name, hname⟩ := hfields c hc
    exact ⟨_, hname.resolve⟩
  obtain ⟨f', hf'⟩ := exists_enforce h hfields (by decide) (fun _ _ _ => rfl) .empty
  obtain ⟨hagain, hliteral, -⟩ := enforce_enforce h
  have hclean : ∀ c ∈ Sample.booksOnLists, c.operand.literal.hasNaN = false := by decide
  exact ⟨q, f', h, hf', hagain (fun c hc => hliteral c hc (hclean c hc)) .empty f' hf'⟩

end Query
end VaultQuery
