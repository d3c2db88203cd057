import VaultQuery.CommandLine.Run
import VaultQuery.Proofs.Command.Operations

/-! # What a run does to files

    A run reads the vault from its file, carries out one action in memory, and decides by the
    action and its report whether to write the vault back. The decision is right: the file is
    written exactly when the vault in memory has changed or a document was created, and then
    it holds the changed vault.

    * `Loads`: what a run has read before it acts;
    * `Action.session`: the action as a program on the vault in memory;
    * `Saves`: the run of a creation, or of an addition that says it succeeded;
    * `filesAfter`: what is found at a path after a run;
    * `exit_eq_zero_iff`: when a run ends well;
    * `filesAfter_eq`: files and memory after any run. -/

namespace VaultQuery.CommandLine

/-! ## Actions -/

namespace Action

variable {v v' : Vault} {settings : Settings} {now : Instant} {a : Action} {r : Report}

/-- An action as a program on one vault. -/
def session (settings : Settings) (now : Instant) : Action → Session Report
  | .request c => Session.perform settings now c
  | .new name type collection expressions => do
      let clauses ← Session.read fun _ => collect Clause.ofExpression expressions
      Session.newDocument settings now (newClauses settings type collection clauses) collection name

/-- Actions are all or nothing. -/
theorem run_session (settings : Settings) (now : Instant) (a : Action) (v : Vault) :
    (a.session settings now).run v = Session.settle v (a.perform settings now v) := by
  cases a with
  | request c => exact Session.Performs.perform settings now c v
  | new name type collection expressions =>
      exact Session.Performs.read_bind (fun clauses =>
        Session.Performs.newDocument settings now _ collection name) v

/-- The action is one that arguments spell: they have a word of their own for creations. -/
def IsSpelled : Action → Prop
  | .request (.newInstance _ _) => False
  | .request (.newDocument _ _ _) => False
  | _ => True

/-- The path of the document that the action is to create or to change. -/
def names? : Action → Option String
  | .new name _ _ _ => some (pathForName name)
  | .request (.add path _) => some path
  | _ => none

/-- The action creates a document, or adds one to a collection and says so. -/
def Writes (a : Action) (r : Report) : Prop :=
  (∃ name type collection clauses, a = .new name type collection clauses) ∨
    (∃ path collection, a = .request (.add path collection)) ∧ r.isSuccess = true

theorem changes_iff : a.changes r = true ↔ a.Writes r := by
  cases a with
  | new name type collection clauses =>
      exact ⟨fun _ => Or.inl ⟨name, type, collection, clauses, rfl⟩, fun _ => rfl⟩
  | request c =>
      cases c <;> simp [changes, Writes]

/-- Where an action does not write, the vault is as it was. -/
theorem eq_of_not_writes (hspelled : a.IsSpelled) (h : a.perform settings now v = .ok (v', r))
    (hnot : ¬ a.Writes r) : v' = v := by
  cases a with
  | new name type collection clauses =>
      exact absurd (Or.inl ⟨name, type, collection, clauses, rfl⟩) hnot
  | request c =>
      have hc : c.perform settings now v = .ok (v', r) := h
      cases c with
      | add path collection =>
          rcases Vault.addToCollection_cases hc with ⟨-, rfl⟩ | ⟨hsuccess, -⟩
          · rfl
          · exact absurd (Or.inr ⟨⟨path, collection, rfl⟩, hsuccess⟩) hnot
      | newInstance type name => exact hspelled.elim
      | newDocument clauses context name => exact hspelled.elim
      | _ => exact Command.eq_of_not_writes rfl hc

/-- Where an action writes, the vault differs in the document that the action names. -/
theorem document_eq (hspelled : a.IsSpelled) (h : a.perform settings now v = .ok (v', r)) :
    v'.properties = v.properties ∧
      ∀ path, a.names? ≠ some path → v'.document path = v.document path := by
  cases a with
  | new name type collection expressions =>
      obtain ⟨clauses, -, hnew⟩ := bind_eq_ok_iff.mp h
      have hadvances : v.Advances (.create clauses collection name) v' :=
        .newDocument hnew rfl
      exact ⟨hadvances.kinds rfl, fun path hpath => hadvances.document_eq nofun hpath⟩
  | request c =>
      have hadvances := Operation.advances_of_request h
      refine ⟨hadvances.kinds rfl, fun path hpath => hadvances.document_eq ?_ ?_⟩
      · cases c <;> exact hpath
      · cases c with
        | newInstance type name => exact hspelled.elim
        | newDocument clauses context name => exact hspelled.elim
        | _ => exact nofun

end Action

/-! ## Arguments -/

variable {s : Surroundings} {args : List String} {i : Invocation} {settings : Settings}
  {v v' : Vault} {r : Report}

theorem Verb.isSpelled_of_action {verb : Verb} {reading : Reading} {words : List String}
    {a : Action} (h : verb.action reading words = .ok a) : a.IsSpelled := by
  unfold Verb.action at h
  split at h
  all_goals first | (cases h; trivial) | exact nomatch h

theorem isSpelled_of_ofArguments {environment : List (String × String)}
    (h : Invocation.ofArguments environment args = .ok i) : i.action.IsSpelled := by
  obtain ⟨⟨before, rest⟩, -, h⟩ := bind_eq_ok_iff.mp h
  cases rest with
  | none => exact nomatch h
  | some p =>
      obtain ⟨name, args⟩ := p
      simp only at h
      cases hverb : Verb.ofName? name with
      | none =>
          rw [hverb] at h
          exact nomatch h
      | some verb =>
          rw [hverb] at h
          obtain ⟨⟨after, words⟩, -, h⟩ := bind_eq_ok_iff.mp h
          obtain ⟨a, ha, h⟩ := bind_eq_ok_iff.mp h
          obtain ⟨vault, -, h⟩ := bind_eq_ok_iff.mp h
          cases h
          exact Verb.isSpelled_of_action ha

/-! ## Runs -/

/-- What a run has read before it acts: the invocation, its settings and its vault. -/
structure Loads (s : Surroundings) (args : List String) (i : Invocation) (settings : Settings)
    (v : Vault) : Prop where
  arguments : Invocation.ofArguments s.environment args = .ok i
  configuration : settingsOf s i = .ok settings
  vault : vaultOf s i settings = .ok v

/-- A run that creates a document, or adds one to a collection and says so; `v` is the vault it
    has read and `v'` the vault after its action. -/
structure Saves (s : Surroundings) (args : List String) (i : Invocation) (settings : Settings)
    (v v' : Vault) (r : Report) : Prop where
  loads : Loads s args i settings v
  performs : i.action.perform settings s.now v = .ok (v', r)
  writes : i.action.Writes r

/-- What is found at a path after a run. -/
def filesAfter (s : Surroundings) (args : List String) (path : String) : File :=
  match (run s args).written with
  | none => s.file path
  | some (written, content) => if path = written then .content content else s.file path

theorem during_eq_ok_iff {α : Type} {what : List String} {x : Except Failure α} {a : α} :
    during what x = .ok a ↔ x = .ok a := by
  cases x with
  | error e => simp [during]
  | ok b => simp [during]

/-- An invocation is carried out when it has been loaded and its action succeeds. -/
theorem carryOut_eq_ok_iff {output : String} {written : Option (String × String)} :
    carryOut s i = .ok (output, written) ↔
      ∃ settings v v' r, settingsOf s i = .ok settings ∧ vaultOf s i settings = .ok v ∧
        i.action.perform settings s.now v = .ok (v', r) ∧ output = render r i.format ∧
        written = if i.action.changes r then some (i.vault, v'.toSnapshot) else none := by
  simp only [carryOut, bind_eq_ok_iff, during_eq_ok_iff]
  constructor
  · rintro ⟨settings, hsettings, v, hv, ⟨v', r⟩, hperform, h⟩
    cases h
    exact ⟨settings, v, v', r, hsettings, hv, hperform, rfl, rfl⟩
  · rintro ⟨settings, v, v', r, hsettings, hv, hperform, rfl, rfl⟩
    exact ⟨settings, hsettings, v, hv, (v', r), hperform, rfl⟩

/-- A run whose arguments can be read ends well exactly when its action succeeds. -/
theorem exit_eq_zero_iff (harguments : Invocation.ofArguments s.environment args = .ok i) :
    (run s args).exit = 0 ↔ ∃ settings v v' r, Loads s args i settings v ∧
      i.action.perform settings s.now v = .ok (v', r) := by
  simp only [run, harguments, runInvocation]
  constructor
  · intro hexit
    cases hcarry : carryOut s i with
    | error t =>
        rw [hcarry] at hexit
        cases hexit
    | ok p =>
        obtain ⟨settings, v, v', r, hsettings, hvault, hperforms, -⟩ :=
          carryOut_eq_ok_iff.mp hcarry
        exact ⟨settings, v, v', r, ⟨harguments, hsettings, hvault⟩, hperforms⟩
  · rintro ⟨settings, v, v', r, ⟨-, hsettings, hvault⟩, hperforms⟩
    rw [carryOut_eq_ok_iff.mpr ⟨settings, v, v', r, hsettings, hvault, hperforms, rfl, rfl⟩]

/-- A run that saves ends well and has written the vault to its place. -/
theorem run_of_saves (h : Saves s args i settings v v' r) :
    (run s args).exit = 0 ∧ (run s args).written = some (i.vault, v'.toSnapshot) := by
  obtain ⟨⟨harguments, hsettings, hvault⟩, hperforms, hwrites⟩ := h
  have hcarry : carryOut s i = .ok (render r i.format, some (i.vault, v'.toSnapshot)) := by
    refine carryOut_eq_ok_iff.mpr ⟨settings, v, v', r, hsettings, hvault, hperforms, rfl, ?_⟩
    rw [if_pos (Action.changes_iff.mpr hwrites)]
  have hrun : run s args = ⟨0, render r i.format, "", some (i.vault, v'.toSnapshot)⟩ := by
    simp only [run, harguments, runInvocation, hcarry]
  rw [hrun]
  exact ⟨rfl, rfl⟩

/-- A run that does not save writes nothing. -/
theorem written_eq_none
    (h : ∀ i settings v v' r, ¬ Saves s args i settings v v' r) : (run s args).written = none := by
  cases harguments : Invocation.ofArguments s.environment args with
  | error e => cases e <;> simp only [run, harguments]
  | ok i =>
      cases hcarry : carryOut s i with
      | error t => simp only [run, harguments, runInvocation, hcarry]
      | ok p =>
          obtain ⟨output, written⟩ := p
          obtain ⟨settings, v, v', r, hsettings, hvault, hperforms, -, hwritten⟩ :=
            carryOut_eq_ok_iff.mp hcarry
          have hchanges : ¬ i.action.changes r = true := fun hchanges =>
            h i settings v v' r ⟨⟨harguments, hsettings, hvault⟩, hperforms,
              Action.changes_iff.mp hchanges⟩
          rw [if_neg hchanges] at hwritten
          simp only [run, harguments, runInvocation, hcarry, hwritten]

/-- What is written was saved. -/
theorem exists_saves (h : (run s args).written ≠ none) :
    ∃ i settings v v' r, Saves s args i settings v v' r := by
  refine Classical.byContradiction fun hnever => h (written_eq_none ?_)
  intro i settings v v' r hsaves
  exact hnever ⟨i, settings, v, v', r, hsaves⟩

/-- **A run writes the vault's file exactly when it saves**: when it creates a document or adds
    one to a collection and says so. Then it ends well, and the file holds the vault after the
    action, which differs from the vault that was read in the document that the action names.
    Any other run, whether it fails or succeeds, leaves all files and the vault in memory as
    they were. And a run whose arguments can be read ends well exactly when its action
    succeeds, so that one that ends well and is to create a document does save. -/
theorem filesAfter_eq (s : Surroundings) (args : List String) :
    (∀ i settings v v' r, Saves s args i settings v v' r →
      (run s args).exit = 0 ∧
      (∀ path, filesAfter s args path
        = if path = i.vault then .content v'.toSnapshot else s.file path) ∧
      (i.action.session settings s.now).run v = .ok r v' ∧
      v'.properties = v.properties ∧
      ∀ path, i.action.names? ≠ some path → v'.document path = v.document path) ∧
    ((∀ i settings v v' r, ¬ Saves s args i settings v v' r) →
      (∀ path, filesAfter s args path = s.file path) ∧
      ∀ i settings v, Loads s args i settings v →
        v.leftBy (i.action.session settings s.now) = v) ∧
    ∀ i, Invocation.ofArguments s.environment args = .ok i →
      ((run s args).exit = 0 ↔ ∃ settings v v' r, Loads s args i settings v ∧
        i.action.perform settings s.now v = .ok (v', r)) := by
  refine ⟨?_, ?_, fun i harguments => exit_eq_zero_iff harguments⟩
  · intro i settings v v' r h
    obtain ⟨hexit, hwritten⟩ := run_of_saves h
    obtain ⟨hproperties, hdocuments⟩ :=
      Action.document_eq (isSpelled_of_ofArguments h.loads.arguments) h.performs
    refine ⟨hexit, fun path => ?_, ?_, hproperties, hdocuments⟩
    · rw [filesAfter, hwritten]
    · rw [Action.run_session, h.performs]
      rfl
  · intro h
    refine ⟨fun path => ?_, fun i settings v hloads => ?_⟩
    · rw [filesAfter, written_eq_none h]
    · rw [Vault.leftBy, Action.run_session]
      cases hperforms : i.action.perform settings s.now v with
      | error e => rfl
      | ok p =>
          obtain ⟨v', r⟩ := p
          refine Action.eq_of_not_writes (isSpelled_of_ofArguments hloads.arguments) hperforms ?_
          exact fun hwrites => h i settings v v' r ⟨hloads, hperforms, hwrites⟩

/-- A vault file with one document, and nothing beside it. -/
def Surroundings.sample : Surroundings where
  environment := []
  file path :=
    if path = "vault.json" then .content "[\x7b\"path\": \"A.md\"\x7d]" else .missing
  globalConfig := none
  now := Sample.moment

/-- A new name is written to the file, and the document that was there stays; a name that is in
    use is not written. -/
theorem filesAfter_eq_of_new :
    (∃ i settings v v' r, Saves .sample ["new", "B"] i settings v v' r ∧
      (run .sample ["new", "B"]).exit = 0 ∧
      filesAfter .sample ["new", "B"] "vault.json" = .content v'.toSnapshot ∧
      filesAfter .sample ["new", "B"] "B.md" = .missing ∧
      v'.document "A.md" = v.document "A.md") ∧
    filesAfter .sample ["new", "A"] "vault.json" = Surroundings.sample.file "vault.json" := by
  constructor
  · have hwritten : (run .sample ["new", "B"]).written ≠ none := by decide +kernel
    have hinvocation : ((Invocation.ofArguments Surroundings.sample.environment ["new", "B"]).map
        fun i => (i.vault, i.action.names?)).toOption = some ("vault.json", some "B.md") := by
      decide +kernel
    obtain ⟨i, settings, v, v', r, hsaves⟩ := exists_saves hwritten
    obtain ⟨i', hi', hwords⟩ := map_eq_ok_iff.mp (toOption_eq_some_iff.mp hinvocation)
    cases hsaves.loads.arguments.symm.trans hi'
    obtain ⟨hvault, hnames⟩ := Prod.mk.inj hwords
    obtain ⟨hexit, hfiles, -, -, hdocuments⟩ :=
      (filesAfter_eq .sample ["new", "B"]).1 i settings v v' r hsaves
    refine ⟨i, settings, v, v', r, hsaves, hexit, ?_, ?_, hdocuments "A.md" ?_⟩
    · rw [hfiles, hvault, if_pos rfl]
    · rw [hfiles, hvault, if_neg (by decide)]
      rfl
    · rw [hnames]
      decide
  · have hwritten : (run .sample ["new", "A"]).written = none := by decide +kernel
    have hnever : ∀ i settings v v' r, ¬ Saves .sample ["new", "A"] i settings v v' r := by
      intro i settings v v' r hsaves
      cases hwritten.symm.trans (run_of_saves hsaves).2
    exact ((filesAfter_eq .sample ["new", "A"]).2.1 hnever).1 "vault.json"

end VaultQuery.CommandLine
