/-! # Where files are

    A path names the directories on the way to a file, and the file. Empty names and single
    points on the way lead nowhere else.

    - `segments`: the names along a path;
    - `configBeside`: the configuration file in the directory of a vault;
    - `isTomlPath`: the path names a file with the extension `toml`. -/

namespace VaultQuery.CommandLine

/-- The parts of a text between its slashes, at least one. -/
def splitSlashes : List Char → List (List Char)
  | [] => [[]]
  | c :: cs =>
      if c = '/' then [] :: splitSlashes cs
      else
        match splitSlashes cs with
        | [] => [[c]]
        | part :: parts => (c :: part) :: parts

/-- The names along a path. -/
def segments (cs : List Char) : List (List Char) :=
  (splitSlashes cs).filter fun name => !name.isEmpty && name != ['.']

/-- The path begins at the root of all files. -/
def isAbsolute (cs : List Char) : Bool := cs.head? == some '/'

/-- The directory of what a path names, with its final slash. It is empty for the directory
    where the program runs, which is also that of a path without names. -/
def directoryOf (cs : List Char) : List Char :=
  let names := segments cs
  let directories := names.dropLast.flatMap fun name => name ++ ['/']
  if isAbsolute cs && !names.isEmpty then '/' :: directories else directories

/-- The name of the configuration file beside a vault. -/
def configName : List Char := "sets.toml".toList

/-- The path of the configuration file beside the vault. -/
def configBeside (vault : String) : String :=
  String.ofList (directoryOf vault.toList ++ configName)

/-- The path names a file with the extension `toml`. -/
def isTomlPath (path : String) : Bool :=
  match (segments path.toList).getLast? with
  | some name => ".toml".toList.isSuffixOf name && 5 < name.length
  | none => false

end VaultQuery.CommandLine
