import Mintmark.Mint.Selection
import Mintmark.Report
import Mintmark.Sequencer.Guarded
import Mintmark.Settings

/-!
What the program does once it has its settings: it prints identifiers, one to a line, or the report
on one.
-/
namespace Mintmark

inductive Failure where
  | settings (error : SettingsError)
  | mint (error : MintError)
  | invalidTarget
  | exhausted (attempts : Nat)
  | malformed (text : String) (error : TextError)
deriving DecidableEq, Repr

namespace Failure

def message : Failure → String
  | settings error => error.message
  | mint error => error.message
  | invalidTarget => "invalid partitioning"
  | exhausted attempts => s!"no identifier satisfied the constraints within {attempts} attempts"
  | malformed text _ => s!"malformed identifier `{text}`"

def cause : Failure → Option String
  | malformed _ error => some error.message
  | _ => none

def diagnostic (failure : Failure) : String :=
  let causes := match failure.cause with
    | some cause => s!"\n\nCaused by:\n    {cause}"
    | none => ""
  s!"Error: {failure.message}{causes}\n"

end Failure

structure Outcome where
  output : String
  failure : Option Failure := none
deriving DecidableEq, Repr

namespace Program
variable {σ τ : Type} [Sequencer σ] [Clock τ]

def shard : Option Target → Except Failure (Option Shard)
  | none => .ok none
  | some ⟨partition, partitions⟩ =>
    match (Division.ofCount? partitions).bind (Shard.new? partition ·) with
    | some shard => .ok (some shard)
    | none => .error .invalidTarget

def draw (label : String) (shard : Option Shard) (mint : Mint σ τ) :
    Except ClockFault (Except Failure Identifier) × Mint σ τ :=
  match shard with
  | none =>
    match mint.issue label with
    | (.error fault, after) => (.error fault, after)
    | (.ok (.error error), after) => (.ok (.error (.mint error)), after)
    | (.ok (.ok identifier), after) => (.ok (.ok identifier), after)
  | some shard =>
    match mint.select label [shard.toConstraint] true with
    | (.error fault, after) => (.error fault, after)
    | (.ok (.error error), after) => (.ok (.error (.mint error)), after)
    | (.ok (.ok none), after) => (.ok (.error (.exhausted mint.attemptLimit)), after)
    | (.ok (.ok (some identifier)), after) => (.ok (.ok identifier), after)

/-- Draws identifiers until there are enough or one fails; the latest comes first. -/
def drawAll (label : String) (shard : Option Shard) :
    Nat → List Identifier → Mint σ τ →
      Except ClockFault (List Identifier × Option Failure) × Mint σ τ
  | 0, drawn, mint => (.ok (drawn, none), mint)
  | count + 1, drawn, mint =>
    match draw label shard mint with
    | (.error fault, after) => (.error fault, after)
    | (.ok (.error failure), after) => (.ok (drawn, some failure), after)
    | (.ok (.ok identifier), after) => drawAll label shard count (identifier :: drawn) after

def lines (identifiers : List Identifier) : String :=
  String.join (identifiers.map fun identifier => identifier.text ++ "\n")

def mint (settings : Settings) (processId : Nat) (source : Source σ τ) : Mint σ τ :=
  ((({ source } : Mint σ τ).withAttemptLimit settings.attemptLimit).assignNode
    (settings.nodeSeed.getD processId)).2

/-- Prints so many identifiers. Those drawn before a failure are printed too. -/
def issue (settings : Settings) (processId : Nat) (label : String) (count : Nat)
    (source : Source σ τ) : Except ClockFault Outcome :=
  match shard settings.target with
  | .error failure => .ok { output := "", failure := some failure }
  | .ok shard =>
    (drawAll label shard count [] (mint settings processId source)).1.map
      fun (drawn, failure) => { output := lines drawn.reverse, failure }

def inspect (text : String) : Outcome :=
  match Identifier.ofText text with
  | .ok identifier => { output := Report.text identifier ++ "\n" }
  | .error error => { output := "", failure := some (.malformed text error) }

def run (settings : Settings) (processId : Nat) (clock : τ) : Except ClockFault Outcome :=
  match settings.job with
  | .issue label count =>
    issue settings processId label count (⟨{}, clock, []⟩ : Source GuardedSequencer τ)
  | .inspect text => .ok (inspect text)

def start (arguments : Arguments) (processId : Nat) (clock : τ) : Except ClockFault Outcome :=
  match Settings.ofArguments arguments with
  | .error error => .ok { output := "", failure := some (.settings error) }
  | .ok settings => run settings processId clock

end Program
end Mintmark
