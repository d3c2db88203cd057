import VaultQuery.Command.Basic

/-! # Commands that write as they go

    The commands of this library compute the vault after them, or fail. Here they are programs
    that read and change one vault, step by step: what is written before a step fails stays
    written. That they are all or nothing is then something to prove, and not to read off
    their type.

    * `Session`: programs on one vault;
    * `Session.perform`: the requests of clients as such programs;
    * `Session.Performs`: a program does all that a function says, or nothing;
    * `Session.Performs.perform`: so do the requests. -/

namespace VaultQuery

/-- No document is at the path. -/
def Vault.checkFree (v : Vault) (path : String) : Except Failure Unit :=
  if v.documents.contains path then .error (.alreadyExists path) else .ok ()

/-- Programs that change a vault; a failure leaves it as far as they came. -/
abbrev Session := EStateM Failure Vault

namespace Session

variable {α β : Type} {s : Settings} {now : Instant}

/-! ## Programs -/

/-- A step that looks at the vault and leaves it alone. -/
def read (f : Vault → Except Failure α) : Session α := fun v =>
  match f v with
  | .ok a => .ok a v
  | .error e => .error e v

/-- A document added at a free path. -/
def insert (d : Document) : Session Unit := do
  read (·.checkFree d.path)
  modify (·.put d)

/-- The frontmatter of a document replaced. -/
def setFrontmatter (path : String) (f : Frontmatter) (now : Instant) : Session Document := do
  let d ← read (·.document path)
  let changed := { d with frontmatter := some f, modified := now }
  modify (·.put changed)
  return changed

/-- A new document that satisfies some clauses. -/
def newDocument (s : Settings) (now : Instant) (clauses : List Clause)
    (context : Option String) (name : String) : Session Report := do
  let name ← read fun _ => validName name
  let path := pathForName name
  read (·.checkFree path)
  let context ← read (·.contextDocument context)
  let q ← read fun v => Query.compile v clauses [] context s
  let frontmatter ← read fun _ => q.enforce .empty
  let d : Document := ⟨path, now, now, some frontmatter⟩
  insert d
  read fun v => .ok ⟨[v.linked d], [], [], [createdMessage d]⟩

/-- A new document of a type. -/
def newInstance (s : Settings) (now : Instant) (type name : String) : Session Report := do
  let type := Text.trim type
  if type.isEmpty then throw .emptyType
  newDocument s now [.literal s.typeAttribute .eq (.text type)] none name

/-- A document added to a collection. -/
def addToCollection (s : Settings) (now : Instant) (path collectionPath : String) :
    Session Report := do
  let d ← read (·.document path)
  let collection ← read (·.document collectionPath)
  let warning ← read fun v => collectionWarning v s collection
  let q ← read fun v => membershipQuery v s .hasThis collection
  let already ← read fun _ => q.accepts d
  let frontmatter ← read fun _ => q.enforceDocument d
  if already then
    read fun v => .ok ⟨[v.linked d], [], [], warning ++ [alreadyIn d collection]⟩
  else
    let changed ← setFrontmatter path frontmatter now
    read fun v => .ok ⟨[v.linked changed], [], [], warning ++ [addedTo changed collection]⟩

/-- What a client asks for. -/
def perform (s : Settings) (now : Instant) : Command → Session Report
  | .select clauses sort context => read fun v => v.select s clauses sort context
  | .types => read fun v => .ok (typesReport v s)
  | .collections => read fun v => collectionsReport v s
  | .members path => read fun v => membersReport v s path
  | .available path => read fun v => availableReport v s path
  | .add path collection => addToCollection s now path collection
  | .newInstance type name => newInstance s now type name
  | .newDocument clauses context name => do
      let clauses ← read fun _ => collect Clause.ofExpression clauses
      newDocument s now clauses context name

/-! ## All or nothing -/

/-- The end of a program that does all that was said, or fails in the vault it began with. -/
def settle (v : Vault) : Except Failure (Vault × α) → EStateM.Result Failure Vault α
  | .ok (v', a) => .ok a v'
  | .error e => .error e v

/-- The program does what the function says, all or nothing. -/
def Performs (x : Session α) (f : Vault → Except Failure (Vault × α)) : Prop :=
  ∀ v, x.run v = settle v (f v)

namespace Performs

variable {x : Session α} {f : Vault → Except Failure (Vault × α)}

/-- When it fails it has written nothing. -/
theorem eq_of_error {v v' : Vault} {e : Failure} (h : Performs x f)
    (hrun : x.run v = .error e v') : v' = v := by
  rw [h v] at hrun
  cases hv : f v with
  | error e' =>
      rw [hv] at hrun
      cases hrun
      rfl
  | ok p =>
      rw [hv] at hrun
      cases hrun

/-- To look at the vault is to do nothing to it. -/
theorem read (g : Vault → Except Failure α) :
    Performs (Session.read g) fun v => (g v).map fun a => (v, a) := by
  intro v
  show Session.read g v = settle v ((g v).map fun a => (v, a))
  rw [Session.read]
  cases g v <;> rfl

/-- A look at the vault before a program that does all or nothing. -/
theorem read_bind {g : Vault → Except Failure β} {x : β → Session α}
    {f : β → Vault → Except Failure (Vault × α)} (h : ∀ b, Performs (x b) (f b)) :
    Performs (Session.read g >>= x) fun v => (g v).bind fun b => f b v := by
  intro v
  show EStateM.bind (Session.read g) x v = settle v ((g v).bind fun b => f b v)
  rw [EStateM.bind, Session.read]
  cases g v with
  | error e => rfl
  | ok b => exact h b v

/-- A look at the vault afterwards, which cannot fail. -/
theorem bind_read {h : Vault → α → β} (hx : Performs x f) :
    Performs (x >>= fun a => Session.read fun v => .ok (h v a))
      fun v => (f v).map fun p => (p.1, h p.1 p.2) := by
  intro v
  have hv : x v = settle v (f v) := hx v
  show EStateM.bind x _ v = settle v ((f v).map fun p => (p.1, h p.1 p.2))
  rw [EStateM.bind, hv]
  cases f v <;> rfl

theorem throw (e : Failure) : Performs (throw e : Session α) fun _ => .error e := fun _ => rfl

theorem modify (g : Vault → Vault) : Performs (modify g) fun v => .ok (g v, ()) := fun _ => rfl

/-- An answer made of another. -/
theorem map (k : α → β) (hx : Performs x f) :
    Performs (k <$> x) fun v => (f v).map fun p => (p.1, k p.2) := by
  intro v
  have hv : x v = settle v (f v) := hx v
  show EStateM.map k x v = settle v ((f v).map fun p => (p.1, k p.2))
  rw [EStateM.map, hv]
  cases f v <;> rfl

theorem congr {g : Vault → Except Failure (Vault × α)} (h : Performs x f)
    (hsame : ∀ v, g v = f v) : Performs x g := by
  intro v
  rw [hsame]
  exact h v

theorem insert (d : Document) :
    Performs (Session.insert d) fun v => (v.insert d).map fun v' => (v', ()) := by
  refine (read_bind fun _ => modify (·.put d)).congr fun v => ?_
  rw [Vault.insert, Vault.checkFree]
  cases v.documents.contains d.path <;> rfl

theorem setFrontmatter (path : String) (f : Frontmatter) (now : Instant) :
    Performs (Session.setFrontmatter path f now) fun v => v.setFrontmatter path f now := by
  intro v
  show EStateM.bind (Session.read (·.document path)) _ v = settle v ((v.document path).map _)
  rw [EStateM.bind, Session.read]
  cases v.document path <;> rfl

theorem insert_read (d : Document) (h : Vault → α) :
    Performs (Session.insert d >>= fun _ => Session.read fun v => .ok (h v)) fun v =>
      (v.insert d).bind fun v' => .ok (v', h v') := by
  refine (bind_read (insert d)).congr fun v => ?_
  cases v.insert d <;> rfl

/-- A new document is written in the last step that can fail. -/
theorem newDocument (s : Settings) (now : Instant) (clauses : List Clause)
    (context : Option String) (name : String) :
    Performs (Session.newDocument s now clauses context name) fun v =>
      VaultQuery.newDocument v s now clauses context name := by
  refine (read_bind fun name => read_bind fun _ => read_bind fun c => read_bind fun q =>
    read_bind fun f => insert_read _ _).congr fun v => ?_
  rw [VaultQuery.newDocument]
  cases validName name with
  | error e => rfl
  | ok name =>
      show ite (v.documents.contains (pathForName name) = true) _ _
        = (v.checkFree (pathForName name)).bind _
      rw [Vault.checkFree]
      split <;> rfl

theorem newInstance (s : Settings) (now : Instant) (type name : String) :
    Performs (Session.newInstance s now type name) fun v =>
      VaultQuery.newInstance v s now type name := by
  unfold Session.newInstance VaultQuery.newInstance
  by_cases hempty : (Text.trim type).isEmpty = true
  · simp only [hempty, if_true]
    exact throw _
  · simp only [hempty]
    exact newDocument s now _ none name

/-- A member is written in the last step that can fail, if at all. -/
theorem addToCollection (s : Settings) (now : Instant) (path collectionPath : String) :
    Performs (Session.addToCollection s now path collectionPath) fun v =>
      VaultQuery.addToCollection v s now path collectionPath := by
  unfold Session.addToCollection VaultQuery.addToCollection
  refine read_bind fun d => read_bind fun c => read_bind fun warning => read_bind fun q =>
    read_bind fun already => read_bind fun f => ?_
  cases already with
  | true =>
      simp only [if_true]
      exact read _
  | false =>
      simp only [Bool.false_eq_true, if_false]
      refine (bind_read (setFrontmatter path f now)).congr fun v => ?_
      cases v.setFrontmatter path f now <;> rfl

/-- **Requests are all or nothing**: step by step they do what they are said to do, and a
    request that fails has written nothing. -/
theorem perform (s : Settings) (now : Instant) (c : Command) :
    Performs (Session.perform s now c) fun v => c.perform s now v := by
  cases c with
  | select clauses sort context => exact read _
  | types => exact read fun v => .ok (typesReport v s)
  | collections => exact read _
  | members path => exact read _
  | available path => exact read _
  | add path collection => exact addToCollection s now path collection
  | newInstance type name => exact newInstance s now type name
  | newDocument clauses context name =>
      exact read_bind fun clauses => newDocument s now clauses context name

end Performs
end Session
end VaultQuery
