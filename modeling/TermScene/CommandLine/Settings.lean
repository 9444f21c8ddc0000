import TermScene.Playback.State
import TermScene.Text.Cut

/-!
# Command-line settings

Arguments are read from left to right, and the first one that makes no sense
decides, except that asking for the version or for help answers at once. Which
settings are missing or exclude each other is judged when all have been read.
-/

namespace TermScene.CommandLine

inductive ValueName where
  | scenario
  | assets
  | prompt
  deriving Repr, DecidableEq

inductive FlagName where
  | noPrompt
  | check
  | dump
  | strict
  deriving Repr, DecidableEq

/-- What an argument names. -/
inductive Name where
  | value (name : ValueName)
  | flag (name : FlagName)
  | version
  | help
  deriving Repr, DecidableEq

/-- The settings given so far. -/
structure Given where
  values : List (ValueName × Text)
  flags : List FlagName
  deriving Repr, DecidableEq

structure Settings where
  scenario : Text
  assets : Option Text
  prompt : Option Text
  check : Bool
  dump : Bool
  strict : Bool
  deriving Repr, DecidableEq

inductive Wish where
  | settings (settings : Settings)
  | version
  | help
  | usage
  deriving Repr, DecidableEq

/-- The names that stand behind two dashes. -/
def longNames : List (Text × Name) :=
  [("scenario".toList, .value .scenario), ("assets".toList, .value .assets),
   ("prompt".toList, .value .prompt), ("no-prompt".toList, .flag .noPrompt),
   ("check".toList, .flag .check), ("dump".toList, .flag .dump),
   ("strict".toList, .flag .strict), ("version".toList, .version), ("help".toList, .help)]

/-- The names that stand behind one dash. -/
def shortNames : List (Char × Name) :=
  [('s', .value .scenario), ('V', .version), ('h', .help)]

namespace Given

/-- Adds a value, unless the setting has one already or is a path and empty. -/
def addValue? (given : Given) (name : ValueName) (value : Text) : Option Given :=
  if given.values.any (fun (other, _) => other == name) then none
  else if value = [] ∧ name ≠ .prompt then none
  else some { given with values := (name, value) :: given.values }

/-- Turns a setting on, unless it is on already. -/
def addFlag? (given : Given) (name : FlagName) : Option Given :=
  if name ∈ given.flags then none else some { given with flags := name :: given.flags }

/-- The settings, if they are complete and none excludes another. -/
def settings? (given : Given) : Option Settings := do
  let scenario ← given.values.lookup .scenario
  let prompt := given.values.lookup .prompt
  let has (name : FlagName) : Bool := given.flags.contains name
  if has .noPrompt && prompt.isSome || has .check && has .dump then none
  else
    return {
      scenario := scenario
      assets := given.values.lookup .assets
      prompt := if has .noPrompt then none else some (prompt.getD Config.defaultPrompt)
      check := has .check
      dump := has .dump
      strict := has .strict }

end Given

/-- What one argument is. -/
inductive Argument where
  /-- The end of the settings. -/
  | stop
  /-- A name behind two dashes, and the value behind an equals sign. -/
  | long (name : Text) (value : Option Text)
  /-- Letters behind one dash. -/
  | short (letters : Text)
  /-- Anything else, a single dash too. -/
  | plain (text : Text)
  deriving Repr, DecidableEq

/-- Tells what an argument is by its dashes. -/
def Argument.of : Text → Argument
  | ['-', '-'] => .stop
  | '-' :: '-' :: text =>
    match Text.cutAt? '=' text with
    | some (name, value) => .long name (some value)
    | none => .long text none
  | '-' :: c :: letters => .short (c :: letters)
  | text => .plain text

/-- What letters behind one dash come to. -/
inductive Letters where
  | version
  | help
  | usage
  /-- A setting and its value, if it stands behind the letter. -/
  | value (name : ValueName) (value : Option Text)
  deriving Repr, DecidableEq

/-- Reads letters behind one dash. The only one that takes a value takes all that
follows, without an equals sign at its start. -/
def Letters.of : Text → Letters
  | [] => .usage
  | c :: rest =>
    match shortNames.lookup c with
    | none => .usage
    | some .version => .version
    | some .help => .help
    | some (.flag _) => .usage
    | some (.value name) =>
      match rest with
      | [] => .value name none
      | '=' :: attached => .value name (some attached)
      | attached => .value name (some attached)

/-- Reads arguments after some settings are given. `wanted` is the setting whose
value the next argument has to be. -/
def read (given : Given) (wanted : Option ValueName) : List Text → Wish
  | [] =>
    match wanted, given.settings? with
    | none, some settings => .settings settings
    | _, _ => .usage
  | argument :: more =>
    match wanted, Argument.of argument with
    | some name, .plain value =>
      match given.addValue? name value with
      | some given => read given none more
      | none => .usage
    | some _, _ => .usage
    | none, .plain _ => .usage
    | none, .stop => if more = [] then read given none more else .usage
    | none, .long text value =>
      match longNames.lookup text, value with
      | some .version, none => .version
      | some .help, none => .help
      | some (.flag name), none =>
        match given.addFlag? name with
        | some given => read given none more
        | none => .usage
      | some (.value name), some value =>
        match given.addValue? name value with
        | some given => read given none more
        | none => .usage
      | some (.value name), none => read given (some name) more
      | _, _ => .usage
    | none, .short letters =>
      match Letters.of letters with
      | .version => .version
      | .help => .help
      | .usage => .usage
      | .value name (some value) =>
        match given.addValue? name value with
        | some given => read given none more
        | none => .usage
      | .value name none => read given (some name) more

def Wish.of (arguments : List Text) : Wish := read ⟨[], []⟩ none arguments

end TermScene.CommandLine
