import VaultQuery.Proofs.Command.Reordering
import VaultQuery.Proofs.Command.Requests
import VaultQuery.Proofs.Command.Sessions

/-! # Runs of operations

    Whatever is done to a vault, and in whatever order: documents stand under their own paths,
    in the order of these, an operation that fails leaves no trace, and one that succeeds does
    to the documents no more than it is for.

    * `Operation`: everything that can be done to a vault;
    * `Vault.Advances`: what an operation that succeeds may change;
    * `Operation.advances_of_perform`: one operation changes no more than this;
    * `Vault.advances_afterOperations`: neither does any operation after any others. -/

namespace VaultQuery

/-- What can be done to a vault: the requests of clients; the same with clauses at hand; and
    single changes. -/
inductive Operation where
  | request (c : Command)
  | find (clauses : List Clause) (sort : List SortField) (context : Option Document)
  | create (clauses : List Clause) (context : Option String) (name : String)
  | insert (d : Document)
  | setFrontmatter (path : String) (f : Frontmatter)
  | declare (name : String) (kind : Kind)

namespace Operation

/-- The operation as a program on the vault, with the report it gives if it gives one. -/
def session (s : Settings) (now : Instant) : Operation → Session (Option Report)
  | .request c => some <$> Session.perform s now c
  | .find clauses sort context =>
      some <$> Session.read fun v => v.selection s sort context clauses
  | .create clauses context name => some <$> Session.newDocument s now clauses context name
  | .insert d => (fun _ => none) <$> Session.insert d
  | .setFrontmatter path f => (fun _ => none) <$> Session.setFrontmatter path f now
  | .declare name kind => (fun _ => none) <$> (modify (·.declare name kind) : Session Unit)

/-- The vault after the operation and its report, if it gives one; or its failure. -/
def perform (s : Settings) (now : Instant) (op : Operation) (v : Vault) :
    Except Failure (Vault × Option Report) :=
  match op with
  | .request c => (c.perform s now v).map fun p => (p.1, some p.2)
  | .find clauses sort context =>
      (v.selection s sort context clauses).map fun r => (v, some r)
  | .create clauses context name =>
      (newDocument v s now clauses context name).map fun p => (p.1, some p.2)
  | .insert d => (v.insert d).map fun v' => (v', none)
  | .setFrontmatter path f => (v.setFrontmatter path f now).map fun p => (p.1, none)
  | .declare name kind => .ok (v.declare name kind, none)

/-- The path of the document whose frontmatter the operation is to change. -/
def rewrites? : Operation → Option String
  | .request (.add path _) => some path
  | .setFrontmatter path _ => some path
  | _ => none

/-- The path of the document that the operation is to add. -/
def adds? : Operation → Option String
  | .request (.newInstance _ name) => some (pathForName name)
  | .request (.newDocument _ _ name) => some (pathForName name)
  | .create _ _ name => some (pathForName name)
  | .insert d => some d.path
  | _ => none

/-- The operation declares a kind. -/
def declares : Operation → Bool
  | .declare _ _ => true
  | _ => false

/-- Every operation is all or nothing. -/
theorem performs_session (s : Settings) (now : Instant) (op : Operation) :
    Session.Performs (op.session s now) (op.perform s now) := by
  cases op with
  | request c => exact (Session.Performs.perform s now c).map some
  | find clauses sort context =>
      refine ((Session.Performs.read _).map some).congr fun v => ?_
      rw [perform]
      cases v.selection s sort context clauses <;> rfl
  | create clauses context name =>
      exact (Session.Performs.newDocument s now clauses context name).map some
  | insert d =>
      refine ((Session.Performs.insert d).map fun _ => none).congr fun v => ?_
      rw [perform]
      cases v.insert d <;> rfl
  | setFrontmatter path f =>
      refine ((Session.Performs.setFrontmatter path f now).map fun _ => none).congr fun v => ?_
      rw [perform]
  | declare name kind => exact (Session.Performs.modify (·.declare name kind)).map fun _ => none

end Operation

namespace Vault

/-- What an operation that succeeds may change: it keeps all documents, with their paths and
    times of creation, and changes at most the one it is to rewrite; it adds the one it is to
    add, at a path that was free; and it keeps the declared kinds unless it declares one. -/
structure Advances (v : Vault) (op : Operation) (v' : Vault) : Prop where
  kept : ∀ path d, v.document path = .ok d → ∃ d', v'.document path = .ok d' ∧
    d'.path = d.path ∧ d'.created = d.created ∧ (op.rewrites? ≠ some path → d' = d)
  added : ∀ path, (∃ d, v'.document path = .ok d) ↔
    (∃ d, v.document path = .ok d) ∨ op.adds? = some path
  free : ∀ path, op.adds? = some path → ∀ d, v.document path ≠ .ok d
  kinds : op.declares = false → v'.properties = v.properties

namespace Advances

variable {v v' : Vault} {op : Operation} {d n : Document} {path : String}

/-- An operation that is to add nothing may change nothing. -/
theorem refl (h : op.adds? = none) : v.Advances op v where
  kept _ d hd := ⟨d, hd, rfl, rfl, fun _ => rfl⟩
  added _ := by simp [h]
  free _ hpath := by simp [h] at hpath
  kinds _ := rfl

/-- An operation that declares a kind keeps the documents. -/
theorem declare (name : String) (kind : Kind) :
    v.Advances (.declare name kind) (v.declare name kind) where
  kept _ d hd := ⟨d, hd, rfl, rfl, fun _ => rfl⟩
  added _ := (or_iff_left fun h => nomatch h).symm
  free _ hpath := nomatch hpath
  kinds h := nomatch h

/-- A document inserted is the one that was to be added. -/
theorem insert (h : v.insert n = .ok v') (hadds : op.adds? = some n.path) :
    v.Advances op v' where
  kept _ d hd := ⟨d, document_insert_of_document h hd, rfl, rfl, fun _ => rfl⟩
  added path := by
    rw [document_insert h, hadds, Option.some.injEq]
    by_cases hpath : n.path = path
    · simp [hpath]
    · simp [hpath]
  free path hpath d hd := by
    rw [hadds, Option.some.injEq] at hpath
    have hmem := mem_of_document hd
    exact path_ne_of_insert h hmem (hpath.trans (path_of_document hd).symm)
  kinds _ := by
    obtain ⟨-, rfl⟩ := insert_eq_ok_iff.mp h
    rfl

/-- A document put over the one that was to be rewritten. -/
theorem put (hd : v.document path = .ok d) (hpath : n.path = d.path)
    (hcreated : n.created = d.created) (hrewrites : op.rewrites? = some path)
    (hadds : op.adds? = none) : v.Advances op (v.put n) where
  kept path' d' hd' := by
    have hn : n.path = path := hpath.trans (path_of_document hd)
    rw [document_put, hrewrites]
    by_cases heq : path = path'
    · subst heq
      cases hd.symm.trans hd'
      exact ⟨n, if_pos hn, hpath, hcreated, fun h => absurd rfl h⟩
    · exact ⟨d', (if_neg (hn ▸ heq)).trans hd', rfl, rfl, fun _ => rfl⟩
  added path' := by
    have hn : n.path = path := hpath.trans (path_of_document hd)
    rw [document_put, hadds, or_iff_left (fun h => nomatch h)]
    by_cases heq : n.path = path'
    · rw [if_pos heq, ← heq, hn]
      exact ⟨fun _ => ⟨d, hd⟩, fun _ => ⟨n, rfl⟩⟩
    · rw [if_neg heq]
  free _ hpath := by simp [hadds] at hpath
  kinds _ := rfl

/-- Elsewhere than at the paths the operation is for, the vault is as before. -/
theorem document_eq (h : v.Advances op v') (hrewrites : op.rewrites? ≠ some path)
    (hadds : op.adds? ≠ some path) : v'.document path = v.document path := by
  cases hd : v.document path with
  | ok d =>
      obtain ⟨d', hd', -, -, hsame⟩ := h.kept path d hd
      rw [hd', hsame hrewrites]
  | error e =>
      cases hd' : v'.document path with
      | error e' => rw [error_of_document hd, error_of_document hd']
      | ok d' =>
          rcases (h.added path).mp ⟨d', hd'⟩ with ⟨d, hfound⟩ | hadded
          · rw [hd] at hfound
            cases hfound
          · exact absurd hadded hadds

end Advances

variable {v v' : Vault} {s : Settings} {now : Instant} {r : Report}

/-- An addition to a collection says that it succeeded exactly when it wrote the document. -/
theorem addToCollection_cases {path collectionPath : String}
    (h : addToCollection v s now path collectionPath = .ok (v', r)) :
    (r.isSuccess = false ∧ v' = v) ∨ (r.isSuccess = true ∧ ∃ d f,
      v.document path = .ok d ∧ v' = v.put { d with frontmatter := some f, modified := now }) := by
  obtain ⟨d, c, b, q, f, hd, -, -, -, -, hrest⟩ := addToCollection_eq_ok_iff_steps.mp h
  split at hrest
  · obtain ⟨rfl, rfl⟩ := hrest
    refine Or.inl ⟨?_, rfl⟩
    rw [Report.isSuccess, List.any_append, typeWarning_no_success]
    rfl
  · obtain ⟨rfl, rfl⟩ := hrest
    refine Or.inr ⟨?_, d, f, hd, rfl⟩
    rw [Report.isSuccess, List.any_append]
    exact Bool.or_true _

/-- A new document is the one to add, if that has the path of its name. -/
theorem Advances.newDocument {clauses : List Clause} {context : Option String} {name : String}
    {op : Operation} (h : newDocument v s now clauses context name = .ok (v', r))
    (hadds : op.adds? = some (pathForName name)) : v.Advances op v' := by
  obtain ⟨trimmed, _, _, _, hname, -, -, -, n, hn, hinsert, -⟩ := newDocument_eq_ok_iff.mp h
  have hpath : n.path = pathForName name := by
    rw [hn]
    exact pathForName_of_validName hname
  exact .insert hinsert (hpath ▸ hadds)

end Vault

namespace Operation

variable {v v' : Vault} {s : Settings} {now : Instant}

/-- A request that succeeds changes no more than it is for. -/
theorem advances_of_request {c : Command} {r : Report} (h : c.perform s now v = .ok (v', r)) :
    v.Advances (.request c) v' := by
  cases c with
  | add path collection =>
      rcases Vault.addToCollection_cases h with ⟨-, rfl⟩ | ⟨-, d, f, hd, rfl⟩
      · exact .refl rfl
      · exact .put hd rfl rfl rfl rfl
  | newInstance type name =>
      have hnew : VaultQuery.newInstance v s now type name = .ok (v', r) := h
      exact .newDocument (Vault.newDocument_of_newInstance hnew) rfl
  | newDocument clauses context name =>
      obtain ⟨_, -, hnew⟩ := bind_eq_ok_iff.mp h
      exact .newDocument hnew rfl
  | _ =>
      obtain rfl := Command.eq_of_not_writes rfl h
      exact .refl rfl

/-- **An operation that succeeds changes no more than it is for.** -/
theorem advances_of_perform {op : Operation} {r : Option Report}
    (h : op.perform s now v = .ok (v', r)) : v.Advances op v' := by
  cases op with
  | request c =>
      obtain ⟨p, hp, heq⟩ := map_eq_ok_iff.mp h
      cases heq
      exact advances_of_request hp
  | find clauses sort context =>
      obtain ⟨_, -, heq⟩ := map_eq_ok_iff.mp h
      cases heq
      exact .refl rfl
  | create clauses context name =>
      obtain ⟨p, hp, heq⟩ := map_eq_ok_iff.mp h
      cases heq
      exact .newDocument hp rfl
  | insert d =>
      obtain ⟨_, hinsert, heq⟩ := map_eq_ok_iff.mp h
      cases heq
      exact .insert hinsert rfl
  | setFrontmatter path f =>
      obtain ⟨p, hp, heq⟩ := map_eq_ok_iff.mp h
      obtain ⟨d, hd, rfl⟩ := map_eq_ok_iff.mp hp
      cases heq
      exact .put hd rfl rfl rfl rfl
  | declare name kind =>
      cases h
      exact .declare name kind

end Operation

namespace Vault

/-- The vault that a program leaves, whether it ends or fails. -/
def leftBy {α : Type} (v : Vault) (x : Session α) : Vault :=
  match x.run v with
  | .ok _ v' => v'
  | .error _ v' => v'

/-- The vault after operations, each with its own settings and time. -/
def afterOperations (v : Vault) (operations : List (Settings × Instant × Operation)) : Vault :=
  operations.foldl (fun v o => v.leftBy (o.2.2.session o.1 o.2.1)) v

/-- After an operation the vault has advanced, or it is the one before. -/
theorem leftBy_cases (v : Vault) (s : Settings) (now : Instant) (op : Operation) :
    v.Advances op (v.leftBy (op.session s now)) ∨ v.leftBy (op.session s now) = v := by
  rw [leftBy, op.performs_session s now v]
  cases h : op.perform s now v with
  | ok p => exact Or.inl (Operation.advances_of_perform h)
  | error e => exact Or.inr rfl

/-- **No operation loses a document**, however many follow each other: all keep their paths and
    times of creation, and those that none of the operations is to rewrite stay as they are. -/
theorem document_afterOperations {v : Vault} {path : String} {d : Document}
    (hd : v.document path = .ok d) (operations : List (Settings × Instant × Operation)) :
    ∃ d', (v.afterOperations operations).document path = .ok d' ∧ d'.path = d.path ∧
      d'.created = d.created ∧
      ((∀ o ∈ operations, o.2.2.rewrites? ≠ some path) → d' = d) := by
  induction operations generalizing v d with
  | nil => exact ⟨d, hd, rfl, rfl, fun _ => rfl⟩
  | cons o operations ih =>
      obtain ⟨d₁, hd₁, hpath₁, hcreated₁, hsame₁⟩ : ∃ d₁,
          (v.leftBy (o.2.2.session o.1 o.2.1)).document path = .ok d₁ ∧ d₁.path = d.path ∧
            d₁.created = d.created ∧ (o.2.2.rewrites? ≠ some path → d₁ = d) := by
        rcases v.leftBy_cases o.1 o.2.1 o.2.2 with hadvances | heq
        · exact hadvances.kept path d hd
        · rw [heq]
          exact ⟨d, hd, rfl, rfl, fun _ => rfl⟩
      obtain ⟨d₂, hd₂, hpath₂, hcreated₂, hsame₂⟩ := ih hd₁
      refine ⟨d₂, hd₂, hpath₂.trans hpath₁, hcreated₂.trans hcreated₁, fun hnone => ?_⟩
      obtain ⟨ho, hoperations⟩ := List.forall_mem_cons.mp hnone
      exact (hsame₂ hoperations).trans (hsame₁ ho)

/-- **Whatever is done to a vault of some documents**, and whether it succeeds or fails: every
    document stands under its own path, in the order of paths; the next operation does all that
    it is said to do, or fails and leaves the vault as it was; if it succeeds it has changed no
    more than it is for; and the first documents are there still. -/
theorem advances_afterOperations (documents : List Document)
    (operations : List (Settings × Instant × Operation)) :
    let start := ofDocuments documents
    let v := start.afterOperations operations
    (∀ e ∈ v.documents.entries, e.2.path = e.1) ∧
    (v.documentList.map (·.path)).Pairwise (· < ·) ∧
    (∀ (s : Settings) (now : Instant) (op : Operation),
      (op.session s now).run v = Session.settle v (op.perform s now v) ∧
      match (op.session s now).run v with
      | .ok _ v' => v.Advances op v'
      | .error _ v' => v' = v) ∧
    ∀ path d, start.document path = .ok d → ∃ d', v.document path = .ok d' ∧
      d'.path = d.path ∧ d'.created = d.created ∧
      ((∀ o ∈ operations, o.2.2.rewrites? ≠ some path) → d' = d) := by
  intro start v
  refine ⟨v.own_path, v.paths_increasing, fun s now op => ?_,
    fun path d hd => document_afterOperations hd operations⟩
  have hperforms := op.performs_session s now v
  refine ⟨hperforms, ?_⟩
  rw [hperforms]
  cases h : op.perform s now v with
  | ok p => exact Operation.advances_of_perform h
  | error e => rfl

end Vault
end VaultQuery
