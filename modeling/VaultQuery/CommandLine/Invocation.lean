import VaultQuery.Command.Basic
import VaultQuery.CommandLine.Switch

/-! # Invocations

    What the arguments of the program ask for.

    - `Action`: what is to be done with the vault;
    - `Invocation`: the action, the files and the output format;
    - `Invocation.ofArguments`: the invocation that some arguments spell. -/

namespace VaultQuery.CommandLine

/-- How a report is written. -/
inductive Format where
  | text
  | json
  | yaml
deriving DecidableEq

/-- The format of a name. -/
def Format.ofName? : String → Option Format
  | "text" => some .text
  | "json" => some .json
  | "yaml" => some .yaml
  | _ => none

/-- What is to be done. -/
inductive Action where
  | request (c : Command)
  /-- A document to be created, of a type, in a collection, satisfying clauses. -/
  | new (name : String) (type collection : Option String) (clauses : List String)

/-- What arguments ask for. -/
structure Invocation where
  action : Action
  /-- The path of the vault's file. -/
  vault : String
  /-- The path of the configuration file, if it is not the one beside the vault. -/
  config : Option String
  format : Format

/-- Any text is good. -/
def anyText (_ : String) : Bool := true

/-- Paths are not empty. -/
def isPath (s : String) : Bool := !s.isEmpty

/-- The switches that may stand before and after the name of a command. -/
def globalSwitches : List Switch := [
  ⟨"vault", none, .single isPath⟩,
  ⟨"config", none, .single isPath⟩,
  ⟨"output", none, .single fun s => (Format.ofName? s).isSome⟩,
  ⟨"verbose", some 'v', .flag⟩,
  ⟨"help", some 'h', .help⟩]

/-- The switches before the name of a command. -/
def leadingSwitches : List Switch := ⟨"version", some 'V', .help⟩ :: globalSwitches

/-- The commands. -/
inductive Verb where
  | query
  | types
  | collections
  | members
  | available
  | add
  | new

/-- The command of a name. -/
def Verb.ofName? : String → Option Verb
  | "query" => some .query
  | "q" => some .query
  | "types" => some .types
  | "collections" => some .collections
  | "ls" => some .collections
  | "members" => some .members
  | "available" => some .available
  | "add" => some .add
  | "new" => some .new
  | "n" => some .new
  | _ => none

/-- The switches of a command of its own. -/
def Verb.ownSwitches : Verb → List Switch
  | .query => [⟨"sort", some 's', .repeated⟩, ⟨"context", some 'c', .single anyText⟩]
  | .new => [⟨"type", some 't', .single anyText⟩, ⟨"in", some 'i', .single anyText⟩,
      ⟨"where", some 'w', .repeated⟩]
  | _ => []

/-- How many words a command takes at most, if there is a limit. -/
def Verb.mostWords : Verb → Option Nat
  | .query => none
  | .types => some 0
  | .collections => some 0
  | .members => some 1
  | .available => some 1
  | .add => some 2
  | .new => some 1

/-- The action of a command with its words and switches; a word that is missing is an error. -/
def Verb.action (v : Verb) (r : Reading) (words : List String) : Except Refusal Action :=
  match v, words with
  | .query, clauses =>
      .ok (.request (.select clauses (r.values "sort") (r.value? "context")))
  | .types, [] => .ok (.request .types)
  | .collections, [] => .ok (.request .collections)
  | .members, [path] => .ok (.request (.members path))
  | .available, [path] => .ok (.request (.available path))
  | .add, [path, collection] => .ok (.request (.add path collection))
  | .new, [name] => .ok (.new name (r.value? "type") (r.value? "in") (r.values "where"))
  | _, _ => .error .usage

/-- The environment variable with the path of the vault. -/
def vaultVariable : String := "SETS_VAULT"

/-- The path of the vault where nothing else is said. -/
def defaultVault : String := "vault.json"

/-- The value of a global switch: one after the command's name counts before one in front. -/
def globalValue? (before after : Reading) (long : String) : Option String :=
  (after.value? long).or (before.value? long)

/-- The path of the vault: from a switch, from the environment, or the usual one. The
    environment is looked at for each place where the switch is missing, and a path found
    there must not be empty. -/
def vaultPath (environment : List (String × String)) (before after : Reading) :
    Except Refusal String :=
  let fromEnvironment := environment.lookup vaultVariable
  let inBothPlaces := (before.value? "vault").isSome && (after.value? "vault").isSome
  if fromEnvironment == some "" && !inBothPlaces then .error .usage
  else .ok ((globalValue? before after "vault").getD (fromEnvironment.getD defaultVault))

/-- The invocation that arguments and environment variables spell. -/
def Invocation.ofArguments (environment : List (String × String)) (args : List String) :
    Except Refusal Invocation := do
  let (before, rest) ← Reading.start.upToWord leadingSwitches args
  match rest with
  | none => throw .usage
  | some (name, args) =>
      match Verb.ofName? name with
      | none => throw .usage
      | some verb =>
          let (after, words) ←
            Reading.start.all (verb.ownSwitches ++ globalSwitches) verb.mostWords [] args
          let action ← verb.action after words
          let vault ← vaultPath environment before after
          let format := ((globalValue? before after "output").bind Format.ofName?).getD .text
          return ⟨action, vault, globalValue? before after "config", format⟩

end VaultQuery.CommandLine
