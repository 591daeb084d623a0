import Mintmark.Clock.Anchored
import Mintmark.Program
import Std.Time.DateTime.Timestamp

/-!
The program at a terminal: it takes readings of the wall clock ahead, carries the command out on
them, and takes more where they were too few.
-/
namespace Mintmark.Terminal

def usage : String :=
  "usage: mintmark [--node N] [--max-attempts N] [--partition P --partitions N] COMMAND\n" ++
  "  generate [-p PREFIX] [-c COUNT]   issue identifiers, one to a line\n" ++
  "  parse ID                          show the parts of an identifier\n"

/-- What is shown in place of carrying a line out, with the exit code. -/
def explain : UsageError → String × UInt32
  | .displayHelp => (usage, 0)
  | .displayVersion => ("mintmark 0.1.0\n", 0)
  | .nothingGiven => (usage, 2)
  | .missingCommand => ("error: a command is missing\n", 2)
  | .unknownCommand => ("error: no such command\n", 2)
  | .unknownArgument => ("error: unexpected argument\n", 2)
  | .missingOperand => ("error: an identifier is missing\n", 2)
  | .refusedValue => ("error: an option cannot have this value\n", 2)
  | .missingValue => ("error: an option lacks its value\n", 2)
  | .givenTwice => ("error: an option is given twice\n", 2)
  | .unwantedValue => ("error: an option takes no value\n", 2)

def variableNames : List String :=
  ["STAMPID_NODE", "STAMPID_MAX_ATTEMPTS", "STAMPID_PARTITION", "STAMPID_PARTITIONS", "STAMPID_PREFIX"]

/-- The wall clock, which stands at zero before 1970. -/
def readWall : IO Moment := do
  let now ← Std.Time.Timestamp.now
  return .reading (wallMillis now.toNanosecondsSinceUnixEpoch.toInt).toUInt64

def processId : IO Nat := do
  let status ← IO.FS.readFile "/proc/self/stat"
  return (String.toNat? (String.ofList (status.toList.takeWhile Char.isDigit))).getD 0

/-- Doubles the readings until they are enough. -/
partial def carryOut (arguments : Arguments) (seed : Nat) (readings : List Moment) : IO Outcome := do
  match Program.start arguments seed readings with
  | .ok outcome => return outcome
  | .error _ =>
    let more ← (List.range (readings.length + 64)).mapM fun _ => readWall
    carryOut arguments seed (readings ++ more)

end Mintmark.Terminal

open Mintmark Mintmark.Terminal in
def main (line : List String) : IO UInt32 := do
  let values ← variableNames.mapM fun name => return (name, ← IO.getEnv name)
  match Arguments.read (fun name => (values.lookup name).join) line with
  | .error error =>
    let (text, code) := explain error
    if code = 0 then IO.print text else IO.eprint text
    return code
  | .ok arguments =>
    let outcome ← carryOut arguments (← processId) []
    IO.print outcome.output
    match outcome.failure with
    | none => return 0
    | some failure =>
      IO.eprint failure.diagnostic
      return 1
