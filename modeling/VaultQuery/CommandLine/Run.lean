import VaultQuery.CommandLine.Invocation
import VaultQuery.CommandLine.Location
import VaultQuery.Settings.Load
import VaultQuery.Snapshot
import VaultQuery.Yaml.Printer

/-! # Running the program

    The program as a function from what it is started with to what it does.

    - `Surroundings`: environment variables, files and the clock;
    - `Outcome`: exit code, output, and the file written;
    - `run`: from the one to the other. The vault is written only by a command that changed
      it. -/

namespace VaultQuery.CommandLine

/-- What is found at a path. -/
inductive File where
  | missing
  /-- The path leads through something that is no directory. -/
  | unreachable
  /-- There is something, but it cannot be read as a text. -/
  | unreadable
  | content (s : String)

/-- There is something at the path. -/
def File.isThere : File → Bool
  | .missing => false
  | .unreachable => false
  | .unreadable => true
  | .content _ => true

/-- What the program is started with besides its arguments. -/
structure Surroundings where
  environment : List (String × String)
  file : String → File
  /-- The configuration file of the user, if there is one. -/
  globalConfig : Option String
  now : Instant

/-- What a run does. -/
structure Outcome where
  exit : Nat
  output : String
  errors : String
  /-- The path of the file written, and its content. -/
  written : Option (String × String)

/-- The line of a document. -/
def documentLine (l : Linked) : String := "  " ++ l.document.name ++ "  " ++ l.document.path ++ "\n"

/-- A report for people: documents, values, messages, each on a line. -/
def textReport (r : Report) : String :=
  String.join ((r.affected ++ r.listed).map documentLine ++
    r.values.map (fun value => "  " ++ value ++ "\n") ++
    r.messages.map fun m => m.content ++ "\n")

/-- A report in a format. -/
def render (r : Report) : Format → String
  | .text => textReport r
  | .json => r.toJson.pretty ++ "\n"
  | .yaml => r.toJson.toYaml

/-- Why a run fails, with what it was doing. -/
structure Trouble where
  context : List String
  cause : Option Failure

/-- The line on which trouble is reported. -/
def Trouble.line (t : Trouble) : String :=
  "Error: " ++ ": ".intercalate (t.context ++ t.cause.toList.map Failure.message)

/-- A failure while doing something. -/
def during {α : Type} (what : List String) : Except Failure α → Except Trouble α
  | .ok a => .ok a
  | .error f => .error ⟨what, some f⟩

/-- The settings of the configuration file at a path, which may be missing. -/
def settingsAt (s : Surroundings) (path : String) : Except Failure Settings :=
  if isTomlPath path then
    match s.file path with
    | .missing => Settings.load s.environment none s.globalConfig
    | .unreachable => .error .badConfiguration
    | .unreadable => .error .badConfiguration
    | .content project => Settings.load s.environment (some project) s.globalConfig
  else .error .badConfiguration

/-- The settings of an invocation. A configuration file that is asked for must be there. -/
def settingsOf (s : Surroundings) (i : Invocation) : Except Trouble Settings :=
  match i.config with
  | none => during ["cannot load configuration"] (settingsAt s (configBeside i.vault))
  | some path =>
      if (s.file path).isThere then during ["cannot load configuration"] (settingsAt s path)
      else .error ⟨["config file " ++ path ++ " does not exist"], none⟩

/-- The vault of an invocation as its file holds it. -/
def storedVault (s : Surroundings) (i : Invocation) : Except Failure Vault :=
  match s.file i.vault with
  | .content text => Vault.ofSnapshot s.now text
  | _ => .error .unreadableFile

/-- The vault of an invocation with the declared kinds. -/
def vaultOf (s : Surroundings) (i : Invocation) (settings : Settings) :
    Except Trouble Vault :=
  (during ["cannot load vault " ++ i.vault] (storedVault s i)).map fun v =>
    v.declareAll settings.kinds

/-- The clauses of a new document: those given, its type, its collection. -/
def newClauses (settings : Settings) (type collection : Option String) (clauses : List Clause) :
    List Clause :=
  clauses ++
    type.toList.map (fun type => Clause.literal settings.typeAttribute .eq (.text type)) ++
    collection.toList.map fun _ => ⟨.ofName settings.collectionAttribute, .hasThis, .linkToThis⟩

namespace Action

/-- The vault after an action, and its report. -/
def perform (settings : Settings) (now : Instant) (v : Vault) :
    Action → Except Failure (Vault × Report)
  | .request c => c.perform settings now v
  | .new name type collection expressions => do
      let clauses ← collect Clause.ofExpression expressions
      newDocument v settings now (newClauses settings type collection clauses) collection name

/-- An action that gave this report changed the vault. -/
def changes (a : Action) (r : Report) : Bool :=
  match a with
  | .new _ _ _ _ => true
  | .request (.add _ _) => r.isSuccess
  | .request _ => false

end Action

/-- The output of an invocation, and the file it writes. -/
def carryOut (s : Surroundings) (i : Invocation) :
    Except Trouble (String × Option (String × String)) := do
  let settings ← settingsOf s i
  let v ← vaultOf s i settings
  let (v, r) ← during [] (i.action.perform settings s.now v)
  let written := if i.action.changes r then some (i.vault, v.toSnapshot) else none
  return (render r i.format, written)

/-- The run of an invocation. -/
def runInvocation (s : Surroundings) (i : Invocation) : Outcome :=
  match carryOut s i with
  | .ok (output, written) => ⟨0, output, "", written⟩
  | .error t => ⟨1, "", t.line ++ "\n", none⟩

/-- What is shown to those who ask for help. -/
def helpText : String :=
  "sets query|types|collections|members|available|add|new [arguments] [--vault file] " ++
    "[--config file] [--output text|json|yaml]\n"

/-- The run of the program with some arguments. -/
def run (s : Surroundings) (args : List String) : Outcome :=
  match Invocation.ofArguments s.environment args with
  | .ok i => runInvocation s i
  | .error .help => ⟨0, helpText, "", none⟩
  | .error .usage => ⟨2, "", helpText, none⟩

end VaultQuery.CommandLine
