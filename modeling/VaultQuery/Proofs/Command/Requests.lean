import VaultQuery.Proofs.Command.Membership

/-! # The vault after requests

    A request that fails leaves nothing behind: the vault a client goes on with is the one it
    had. A request that succeeds puts at most one document into the vault, with frontmatter
    that some clauses made.

    * `Command.Makes`: the clauses of a request;
    * `Command.eq_of_not_writes`: reports leave the vault alone;
    * `Vault.after`: the vault after a request;
    * `Vault.afterAll`: the vault after requests one after the other;
    * `Vault.Writes`, `Vault.after_cases`: what one request can do. -/

namespace VaultQuery

namespace Command

/-- The expressions of the clauses that a new document is to satisfy. -/
def expressions : Command → List String
  | .newDocument clauses _ _ => clauses
  | _ => []

/-- A clause that the request makes: one spelled by one of its expressions, one that asks for a
    text, or one that asks for the link. -/
def Makes (request : Command) (c : Clause) : Prop :=
  (∃ expression ∈ request.expressions, Clause.ofExpression expression = .ok c) ∨
    (∃ key op s, c = .literal key op (.text s)) ∨ c.operand = .linkToThis

/-- The request may write; others only report. -/
def writes : Command → Bool
  | .add _ _ | .newInstance _ _ | .newDocument _ _ _ => true
  | _ => false

/-- A request that only reports leaves the vault as it is. -/
theorem eq_of_not_writes {v v' : Vault} {s : Settings} {now : Instant} {c : Command}
    {r : Report} (hc : c.writes = false) (h : c.perform s now v = .ok (v', r)) : v' = v := by
  have hread : ∀ x : Except Failure Report, (x.map fun r => (v, r)) = .ok (v', r) → v' = v := by
    intro x hx
    obtain ⟨_, -, heq⟩ := map_eq_ok_iff.mp hx
    exact (congrArg Prod.fst heq).symm
  cases c with
  | select clauses sort context => exact hread _ h
  | types => exact hread (.ok (typesReport v s)) h
  | collections => exact hread _ h
  | members path => exact hread _ h
  | available path => exact hread _ h
  | add path collection => exact nomatch hc
  | newInstance type name => exact nomatch hc
  | newDocument clauses context name => exact nomatch hc

end Command

namespace Vault

/-- The vault after a request at the time `now`; after a failure it is the one before. -/
def after (v : Vault) (s : Settings) (now : Instant) (request : Command) : Vault :=
  match request.perform s now v with
  | .ok (v', _) => v'
  | .error _ => v

/-- The vault after requests, each with its own settings and time. -/
def afterAll (v : Vault) (requests : List (Settings × Instant × Command)) : Vault :=
  requests.foldl (fun v r => v.after r.1 r.2.1 r.2.2) v

/-- The vault `v'` is `v` with one document put in, whose frontmatter a query with clauses of the
    request made of that of a document of the vault, or of nothing. -/
inductive Writes (v : Vault) (s : Settings) (request : Command) (v' : Vault) : Prop where
  | mk (clauses : List Clause) (context : Option Document) (q : Query) (f : Frontmatter)
      (n : Document) (hclauses : ∀ c ∈ clauses, request.Makes c)
      (hq : Query.compile v clauses [] context s = .ok q)
      (hf : f = .empty ∨ ∃ d ∈ v.documentList, d.frontmatter = some f)
      (hn : ∃ f', q.enforce f = .ok f' ∧ n.frontmatter = some f') (hv : v' = v.put n)

variable {v v' : Vault} {s : Settings} {now : Instant} {r : Report} {request : Command}

theorem writes_of_newDocument {clauses : List Clause} {context : Option String} {name : String}
    (hclauses : ∀ c ∈ clauses, request.Makes c)
    (h : newDocument v s now clauses context name = .ok (v', r)) : v.Writes s request v' := by
  obtain ⟨_, c, q, f, -, -, hq, hf, n, rfl, hinsert, -⟩ := newDocument_eq_ok_iff.mp h
  obtain ⟨-, hput⟩ := insert_eq_ok_iff.mp hinsert
  exact ⟨clauses, c, q, .empty, _, hclauses, hq, Or.inl rfl, ⟨f, hf, rfl⟩, hput⟩

theorem eq_or_writes_of_addToCollection {path collectionPath : String}
    (h : addToCollection v s now path collectionPath = .ok (v', r)) :
    v' = v ∨ v.Writes s request v' := by
  obtain ⟨d, c, b, q, f, hd, -, -, hq, hf, hrest⟩ := addToCollection_eq_ok_iff_steps.mp h
  split at hrest
  · exact Or.inl hrest.1
  · obtain ⟨rfl, -⟩ := hrest
    refine Or.inr ⟨_, some c, q, d.frontmatter.getD .empty,
      { d with frontmatter := some f, modified := now }, ?_, hq, ?_, ⟨f, hf, rfl⟩, rfl⟩
    · exact List.forall_mem_singleton.mpr (Or.inr (Or.inr rfl))
    · cases hfrontmatter : d.frontmatter with
      | none => exact Or.inl rfl
      | some g => exact Or.inr ⟨d, mem_of_document hd, hfrontmatter⟩

/-- **A request leaves the vault as it is or writes one document.** -/
theorem after_cases (v : Vault) (s : Settings) (now : Instant) (request : Command) :
    v.after s now request = v ∨ v.Writes s request (v.after s now request) := by
  rw [after]
  cases h : request.perform s now v with
  | error e => exact Or.inl rfl
  | ok p =>
      obtain ⟨v', r⟩ := p
      show v' = v ∨ v.Writes s request v'
      cases request with
      | add path collection => exact eq_or_writes_of_addToCollection h
      | newInstance type name =>
          have hnew : VaultQuery.newInstance v s now type name = .ok (v', r) := h
          refine Or.inr (writes_of_newDocument ?_ (newDocument_of_newInstance hnew))
          exact List.forall_mem_singleton.mpr (Or.inr (Or.inl ⟨_, _, _, rfl⟩))
      | newDocument clauses context name =>
          obtain ⟨cs, hcs, hnew⟩ := bind_eq_ok_iff.mp h
          refine Or.inr (writes_of_newDocument (fun c hc => ?_) hnew)
          exact Or.inl ((mem_collect hcs).mp hc)
      | _ => exact Or.inl (Command.eq_of_not_writes rfl h)

/-- No request declares a kind. -/
theorem properties_after (v : Vault) (s : Settings) (now : Instant) (request : Command) :
    (v.after s now request).properties = v.properties := by
  rcases v.after_cases s now request with heq | ⟨_, _, _, _, n, -, -, -, -, heq⟩
  · rw [heq]
  · rw [heq]
    rfl

theorem properties_afterAll (v : Vault) (requests : List (Settings × Instant × Command)) :
    (v.afterAll requests).properties = v.properties := by
  induction requests generalizing v with
  | nil => rfl
  | cons r requests ih => exact (ih _).trans (v.properties_after r.1 r.2.1 r.2.2)

end Vault
end VaultQuery
