/-!
Command lines. Options take a value, which stands in the same argument or in the next one; a value
that is given twice, missing or refused is an error, found when the next option or operand comes or
when the line ends. The first word that names a command hands over to it. Options that the line
leaves open may be set in the environment.
-/
namespace Mintmark

inductive UsageError where
  | displayHelp
  | displayVersion
  | nothingGiven
  | missingCommand
  | unknownCommand
  | unknownArgument
  | missingOperand
  | refusedValue
  | missingValue
  | givenTwice
  | unwantedValue
deriving DecidableEq, Repr

namespace CommandLine

structure OptionSpec where
  name : String
  letter : Option Char := none
  /-- The variable of the environment that sets the option. -/
  setBy : Option String := none
  accepts : String → Bool := fun _ => true

structure Level where
  options : List OptionSpec := []
  commands : List String := []
  operands : Nat := 0
  versioned : Bool := false

structure Scan where
  values : List (String × String) := []
  /-- The last option, until its value is settled. -/
  opened : Option (OptionSpec × Option String) := none
  operands : List String := []
  /-- After two dashes, every argument is a word. -/
  literal : Bool := false

namespace Scan

def awaitsValue (scan : Scan) : Bool :=
  match scan.opened with
  | some (_, none) => true
  | _ => false

def settle (scan : Scan) (option : OptionSpec) (value : String) : Except UsageError Scan :=
  if (scan.values.lookup option.name).isSome then .error .givenTwice
  else if option.accepts value then
    .ok { scan with values := scan.values ++ [(option.name, value)] }
  else .error .refusedValue

def close (scan : Scan) : Except UsageError Scan :=
  match scan.opened with
  | none => .ok scan
  | some (_, none) => .error .missingValue
  | some (option, some value) => { scan with opened := none }.settle option value

def enter (scan : Scan) (option : OptionSpec) (value : Option String) : Except UsageError Scan := do
  let scan ← scan.close
  match value with
  | some value => scan.settle option value
  | none => pure { scan with opened := some (option, none) }

/-- Shows a text instead of going on, unless the last option is at fault. -/
def display (scan : Scan) (shown : UsageError) : Except UsageError Scan := do
  let _ ← scan.close
  throw shown

def named (scan : Scan) (level : Level) (name : String) (value : Option String) :
    Except UsageError Scan :=
  if name = "help" ∨ level.versioned ∧ name = "version" then
    if value.isSome then .error .unwantedValue
    else scan.display (if name = "help" then .displayHelp else .displayVersion)
  else
    match level.options.find? (·.name = name) with
    | none => .error .unknownArgument
    | some option => scan.enter option value

def lettered (scan : Scan) (level : Level) (letter : Char) (rest : List Char) :
    Except UsageError Scan :=
  if letter = 'h' then scan.display .displayHelp
  else if level.versioned ∧ letter = 'V' then scan.display .displayVersion
  else
    match level.options.find? (·.letter = some letter) with
    | none => .error .unknownArgument
    | some option =>
      scan.enter option <|
        match rest with
        | [] => none
        | '=' :: value => some (String.ofList value)
        | value => some (String.ofList value)

def word (scan : Scan) (level : Level) (word : String) : Except UsageError Scan :=
  match scan.opened, scan.literal with
  | some (option, none), false => .ok { scan with opened := some (option, some word) }
  | _, _ =>
    if scan.operands.length < level.operands then do
      let scan ← scan.close
      pure { scan with operands := scan.operands ++ [word] }
    else if level.commands = [] ∨ scan.literal ∧ word ∈ level.commands then .error .unknownArgument
    else .error .unknownCommand

def argument (scan : Scan) (level : Level) (argument : String) : Except UsageError Scan :=
  if scan.literal then scan.word level argument
  else
    match argument.toList with
    | ['-', '-'] => .ok { scan with literal := true }
    | '-' :: '-' :: long =>
      scan.named level (String.ofList (long.takeWhile (· ≠ '=')))
        ((long.dropWhile (· ≠ '=')).tail?.map String.ofList)
    | '-' :: letter :: rest => scan.lettered level letter rest
    | _ => scan.word level argument

/-- Reads up to the first command; returns it with what follows. -/
def arguments (level : Level) (scan : Scan) :
    List String → Except UsageError (Scan × Option (String × List String))
  | [] => .ok (scan, none)
  | next :: rest =>
    if next ∈ level.commands ∧ ¬ scan.literal ∧ ¬ scan.awaitsValue then
      .ok (scan, some (next, rest))
    else
      match scan.argument level next with
      | .error error => .error error
      | .ok scan => arguments level scan rest

def fill (environment : String → Option String) (scan : Scan) :
    List OptionSpec → Except UsageError Scan
  | [] => .ok scan
  | option :: options =>
    match scan.values.lookup option.name, option.setBy.bind environment with
    | none, some value =>
      match scan.settle option value with
      | .error error => .error error
      | .ok scan => fill environment scan options
    | _, _ => fill environment scan options

def finish (scan : Scan) (level : Level) (environment : String → Option String) :
    Except UsageError Scan := do
  let scan ← scan.close
  scan.fill environment level.options

end Scan
end CommandLine
end Mintmark
