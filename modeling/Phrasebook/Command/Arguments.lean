import Phrasebook.Command

/-!
# Arguments

Reads a command from the words with which the program is called. The first word names the command,
the others are its options, each of which can be given once. Asking for help is heeded as soon as
it is read, so that what stands behind it does not matter.
-/

namespace Phrasebook

inductive UsageError where
  | unknownCommand (word : String)
  | unexpected (word : String)
  | repeated (option : String)
  | valueMissing (option : String)
  | valueUnexpected (option : String)
  | valueUnfit (option value : String)
deriving DecidableEq, Repr

def UsageError.message : UsageError → String
  | unknownCommand word => "unknown command " ++ word
  | unexpected word => "unexpected argument " ++ word
  | repeated option => "--" ++ option ++ " is given more than once"
  | valueMissing option => "--" ++ option ++ " needs a value"
  | valueUnexpected option => "--" ++ option ++ " takes no value"
  | valueUnfit option value => "--" ++ option ++ " cannot be " ++ value

/-- Why the reading of arguments stops before their end. -/
inductive Stop where
  | help
  | usage (error : UsageError)
deriving DecidableEq, Repr

/-! ### Options -/

inductive Effect (α : Type) where
  | help
  | flag (set : α → α)
  /-- Takes a value, unless it does not fit. -/
  | value (set : String → α → Option α)

structure CommandOption (α : Type) where
  name : String
  letter : Option Char := none
  effect : Effect α

/-- What was read so far: the names of the options and what they ask for. -/
structure Reading (α : Type) where
  used : List String := []
  request : α

namespace CommandOption

variable {α : Type}

def takesValue (o : CommandOption α) : Bool :=
  match o.effect with
  | .value _ => true
  | _ => false

def mark (o : CommandOption α) (r : Reading α) (request : α) : Except Stop (Reading α) :=
  if r.used.contains o.name then .error (.usage (.repeated o.name))
  else .ok ⟨o.name :: r.used, request⟩

def useAlone (o : CommandOption α) (r : Reading α) : Except Stop (Reading α) :=
  match o.effect with
  | .help => .error .help
  | .flag set => o.mark r (set r.request)
  | .value _ => .error (.usage (.valueMissing o.name))

def useWith (o : CommandOption α) (value : String) (r : Reading α) : Except Stop (Reading α) :=
  match o.effect with
  | .value set =>
    match set value r.request with
    | some request => o.mark r request
    | none => .error (.usage (.valueUnfit o.name value))
  | _ => .error (.usage (.valueUnexpected o.name))

end CommandOption

/-! ### Reading options -/

namespace Arguments

variable {α : Type}

/-- Reads the letters behind a single hyphen. -/
def readLetters (options : List (CommandOption α)) :
    List Char → Reading α → Except Stop (Reading α)
  | [], r => .ok r
  | c :: cs, r =>
    match options.find? (·.letter == some c) with
    | none => .error (.usage (.unexpected (String.ofList ['-', c])))
    | some o => do readLetters options cs (← o.useAlone r)

/-- Whether a word behind an option can be its value. -/
def canBeValue (word : String) : Bool := word == "-" || word.toList.head? != some '-'

def read (options : List (CommandOption α)) : List String → Reading α → Except Stop (Reading α)
  | [], r => .ok r
  | word :: words, r =>
    match word.toList with
    | ['-', '-'] =>
      match words with
      | [] => .ok r
      | next :: _ => .error (.usage (.unexpected next))
    | '-' :: '-' :: long =>
      let name := String.ofList (long.takeWhile (· ≠ '='))
      match options.find? (·.name == name) with
      | none => .error (.usage (.unexpected word))
      | some o =>
        match long.dropWhile (· ≠ '=') with
        | _ :: value => do read options words (← o.useWith (String.ofList value) r)
        | [] =>
          if o.takesValue then
            match words with
            | value :: words =>
              if canBeValue value then do read options words (← o.useWith value r)
              else .error (.usage (.valueMissing o.name))
            | [] => .error (.usage (.valueMissing o.name))
          else do read options words (← o.useAlone r)
    | '-' :: c :: cs => do read options words (← readLetters options (c :: cs) r)
    | _ => .error (.usage (.unexpected word))

/-! ### The options of the commands -/

def helpOption : CommandOption α := ⟨"help", some 'h', .help⟩

/-- An option whose value is a path. -/
def pathOption (name : String) (set : String → α → α) : CommandOption α :=
  ⟨name, none, .value fun value request => if value = "" then none else some (set value request)⟩

/-- Decimal digits, possibly behind a plus sign, for a number below 2^64. -/
def number? (value : String) : Option Nat :=
  let digits :=
    match value.toList with
    | '+' :: ds => ds
    | ds => ds
  if digits = [] ∨ !digits.all (·.isDigit) then none
  else
    let n := digits.foldl (fun n d => 10 * n + (d.toNat - '0'.toNat)) 0
    if n < 0x10000000000000000 then some n else none

def extractOptions : List (CommandOption ExtractCommand) := [
  helpOption,
  pathOption "source-root" fun v c => { c with root := v },
  ⟨"verbose", some 'v', .flag fun c => { c with verbose := true }⟩,
  pathOption "out-dir" fun v c => { c with overrides.outDir := some v },
  pathOption "json" fun v c => { c with overrides.dictionary := some v },
  pathOption "pot" fun v c => { c with overrides.template := some v },
  ⟨"arg-mode", none, .value fun v c =>
    (Config.argModes.lookup v).map fun m => { c with overrides.argMode := some m }⟩,
  ⟨"default-value", none, .flag fun c => { c with overrides.setDefault := true }⟩,
  ⟨"debug", none, .flag fun c => { c with overrides.debug := true }⟩,
  ⟨"hash-length", none, .value fun v c =>
    (number? v).map fun n => { c with overrides.idLength := some n }⟩]

def initOptions : List (CommandOption Unit) := [helpOption]

/-! ### Reading commands -/

/-- Help is given on the program or on one of its commands. -/
def readHelp : List String → Except Stop Command
  | [] => .ok .help
  | word :: words =>
    if !(["extract", "init", "help"].contains word) then
      .error (.usage (.unknownCommand word))
    else
      match words with
      | [] => .ok .help
      | next :: _ => .error (.usage (.unknownCommand next))

def readVersionLetters : List Char → Except Stop Command
  | 'h' :: _ => .ok .help
  | 'V' :: _ => .ok .version
  | cs => .error (.usage (.unexpected (String.ofList ('-' :: cs))))

def readCommand : List String → Except Stop Command
  | [] => .ok .help
  | "extract" :: words => return .extract (← read extractOptions words ⟨[], {}⟩).request
  | "init" :: words => do
    let _ ← read initOptions words ⟨[], ()⟩
    return .init
  | "help" :: words => readHelp words
  | ["--"] => .ok .help
  | "--help" :: _ => .ok .help
  | "--version" :: _ => .ok .version
  | word :: _ =>
    match word.toList with
    | '-' :: c :: cs => readVersionLetters (c :: cs)
    | _ => .error (.usage (.unknownCommand word))

end Arguments

/-- The command that arguments give. -/
def Command.ofArguments (words : List String) : Except UsageError Command :=
  match Arguments.readCommand words with
  | .ok c => .ok c
  | .error .help => .ok .help
  | .error (.usage error) => .error error

end Phrasebook
