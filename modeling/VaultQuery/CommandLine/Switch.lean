/-! # Switches

    The reading of a row of arguments: switches with and without values, long and short, and
    the words that are left.

    - `Switch`: what may be given;
    - `Reading.step`: one more argument;
    - `Reading.values`: what was given for a switch. -/

namespace VaultQuery.CommandLine

/-- What a switch does with what follows it. -/
inductive Use where
  /-- It stands alone and may be repeated. -/
  | flag
  /-- It takes one value and may be given once; the value has to pass a test. -/
  | single (isValid : String → Bool)
  /-- It takes one value each time it is given. -/
  | repeated
  /-- It asks for help in place of anything else. -/
  | help

/-- A switch: `--long`, and perhaps one letter. -/
structure Switch where
  long : String
  short : Option Char
  use : Use

/-- Why arguments are not carried out. -/
inductive Refusal where
  /-- They make no sense. -/
  | usage
  /-- They ask for help. -/
  | help
deriving DecidableEq

/-- What has been read so far. -/
structure Reading where
  /-- The switch whose value comes next. -/
  pending : Option Switch
  /-- After `--` all arguments are words. -/
  onlyWords : Bool
  /-- The switches with their values, the last first. -/
  given : List (String × String)

namespace Reading

/-- Nothing read. -/
def start : Reading := ⟨none, false, []⟩

/-- The values given for a switch, in order. -/
def values (r : Reading) (long : String) : List String :=
  (r.given.filter (·.1 == long)).reverse.map (·.2)

/-- The value given for a switch. -/
def value? (r : Reading) (long : String) : Option String := (r.values long).head?

/-- A value for a switch. -/
def give (r : Reading) (s : Switch) (value : String) : Except Refusal Reading :=
  let added := { r with pending := none, given := (s.long, value) :: r.given }
  match s.use with
  | .single isValid =>
      if isValid value && (r.values s.long).isEmpty then .ok added else .error .usage
  | .help => .error .help
  | _ => .ok added

/-- A switch with the value attached to it, if there is one. -/
def takeSwitch (r : Reading) (s : Switch) (attached : Option String) :
    Except Refusal Reading :=
  match s.use, attached with
  | .flag, none => r.give s ""
  | .help, none => .error .help
  | .flag, some _ => .error .usage
  | .help, some _ => .error .usage
  | _, some value => r.give s value
  | _, none => .ok { r with pending := some s }

/-- A long switch, its value possibly attached by an equals sign. -/
def takeLong (switches : List Switch) (r : Reading) (cs : List Char) :
    Except Refusal Reading :=
  let name := String.ofList (cs.takeWhile (· != '='))
  let attached :=
    match cs.dropWhile (· != '=') with
    | [] => none
    | _ :: value => some (String.ofList value)
  match switches.find? (·.long == name) with
  | some s => r.takeSwitch s attached
  | none => .error .usage

/-- Short switches behind one dash; what follows one with a value is its value. -/
def takeShort (switches : List Switch) (r : Reading) : List Char → Except Refusal Reading
  | [] => .ok r
  | c :: cs =>
      match switches.find? (·.short == some c) with
      | none => .error .usage
      | some s =>
          match s.use with
          | .flag =>
              match r.give s "" with
              | .ok r => takeShort switches r cs
              | .error e => .error e
          | .help => .error .help
          | _ =>
              match cs with
              | [] => .ok { r with pending := some s }
              | '=' :: value => r.give s (String.ofList value)
              | value => r.give s (String.ofList value)

/-- One more argument; a word is handed back. -/
def step (switches : List Switch) (r : Reading) (arg : String) :
    Except Refusal (Reading × Option String) :=
  if r.onlyWords then .ok (r, some arg)
  else
    match arg.toList, r.pending with
    | '-' :: _ :: _, some _ => .error .usage
    | ['-', '-'], none => .ok ({ r with onlyWords := true }, none)
    | '-' :: '-' :: cs, none => (r.takeLong switches cs).map fun r => (r, none)
    | '-' :: c :: cs, none => (r.takeShort switches (c :: cs)).map fun r => (r, none)
    | _, some s => (r.give s arg).map fun r => (r, none)
    | _, none => .ok (r, some arg)

/-- Arguments up to the first word: what was read, the word, and the arguments after it. -/
def upToWord (switches : List Switch) (r : Reading) :
    List String → Except Refusal (Reading × Option (String × List String))
  | [] => .ok (r, none)
  | arg :: args =>
      match r.step switches arg with
      | .error e => .error e
      | .ok (r, none) => upToWord switches r args
      | .ok (r, some word) => if r.onlyWords then .error .usage else .ok (r, some (word, args))

/-- All arguments, with at most `most` words if there is a limit. -/
def all (switches : List Switch) (most : Option Nat) (r : Reading) (words : List String) :
    List String → Except Refusal (Reading × List String)
  | [] => if r.pending.isSome then .error .usage else .ok (r, words.reverse)
  | arg :: args =>
      match r.step switches arg with
      | .error e => .error e
      | .ok (r, none) => all switches most r words args
      | .ok (r, some word) =>
          if most.any (· ≤ words.length) then .error .usage
          else all switches most r (word :: words) args

end Reading
end VaultQuery.CommandLine
