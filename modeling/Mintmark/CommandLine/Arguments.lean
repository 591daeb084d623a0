import Mintmark.CommandLine
import Mintmark.Mint
import Mintmark.Numeral

/-!
The arguments of the program: options for all commands, then a command that issues identifiers or
one that takes an identifier apart.
-/
namespace Mintmark

inductive Job where
  | issue (label : String) (count : Nat)
  | inspect (text : String)
deriving DecidableEq, Repr

structure Arguments where
  node : Option Nat
  attemptLimit : Nat
  partition : Option Nat
  partitions : Option Nat
  job : Job
deriving DecidableEq, Repr

namespace Arguments
open CommandLine

/-- Seeds, counts and limits are words of 64 bits. -/
def word64? : String → Option Nat := Numeral.natural? 0xFFFFFFFFFFFFFFFF

def word32? : String → Option Nat := Numeral.signed? 0xFFFFFFFF

def outermost : Level where
  options :=
    [{ name := "node", setBy := some "STAMPID_NODE", accepts := (word64? · |>.isSome) },
     { name := "max-attempts", setBy := some "STAMPID_MAX_ATTEMPTS"
       accepts := (word64? · |>.isSome) },
     { name := "partition", setBy := some "STAMPID_PARTITION", accepts := (word32? · |>.isSome) },
     { name := "partitions", setBy := some "STAMPID_PARTITIONS"
       accepts := (word32? · |>.isSome) }]
  commands := ["generate", "parse", "help"]
  versioned := true

def issuing : Level where
  options :=
    [{ name := "prefix", letter := some 'p', setBy := some "STAMPID_PREFIX" },
     { name := "count", letter := some 'c', accepts := (word64? · |>.isSome) }]

def inspecting : Level where
  operands := 1

/-- Help on a command is shown if there is such a command and nothing below it is asked for. -/
def help : List String → UsageError
  | [] => .displayHelp
  | [topic] => if topic ∈ outermost.commands then .displayHelp else .unknownCommand
  | _ => .unknownCommand

def readIssue (environment : String → Option String) (arguments : List String) :
    Except UsageError Job := do
  let (scan, _) ← Scan.arguments issuing {} arguments
  let scan ← scan.finish issuing environment
  pure <| .issue ((scan.values.lookup "prefix").getD "ID")
    (((scan.values.lookup "count").bind word64?).getD 1)

def readInspect (environment : String → Option String) (arguments : List String) :
    Except UsageError Job := do
  let (scan, _) ← Scan.arguments inspecting {} arguments
  let scan ← scan.finish inspecting environment
  match scan.operands with
  | text :: _ => pure (.inspect text)
  | [] => throw .missingOperand

def readJob (environment : String → Option String) :
    Option (String × List String) → Except UsageError (Option Job)
  | none => pure none
  | some ("help", topics) => throw (help topics)
  | some ("generate", rest) => some <$> readIssue environment rest
  | some (_, rest) => some <$> readInspect environment rest

/-- Reads a line. The command is read to its end before the options in front of it are settled. -/
def read (environment : String → Option String) (arguments : List String) :
    Except UsageError Arguments := do
  let (scan, named) ← Scan.arguments outermost {} arguments
  let found ← readJob environment named
  let scan ← scan.finish outermost environment
  match found with
  | none => throw (if scan.values.isEmpty then .nothingGiven else .missingCommand)
  | some job =>
    pure
      { node := (scan.values.lookup "node").bind word64?
        attemptLimit := ((scan.values.lookup "max-attempts").bind word64?).getD defaultAttemptLimit
        partition := (scan.values.lookup "partition").bind word32?
        partitions := (scan.values.lookup "partitions").bind word32?
        job }

end Arguments
end Mintmark
