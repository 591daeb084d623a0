import Mintmark.Mint.Selection
import Mintmark.Identifier.Text

/-!
Everything that callers ask of a mint, as data, so that runs of any length can be spoken of.
-/
namespace Mintmark

inductive Request where
  | assignNode (seed : Nat)
  | node
  | attemptLimit
  | issue (label : String)
  | issueMany (label : String) (times : Nat)
  | select (label : String) (given : List Constraint) (applyRegistered : Bool)
  | register (constraints : List Constraint)
  | registered
  | verdicts (candidate : Identifier)
  | parse (text : String)

inductive Reply where
  | node (node : Except MintError Node)
  | count (number : Nat)
  | identifier (result : Except MintError Identifier)
  | identifiers (results : List (Except ClockFault (Except MintError Identifier)))
  | selection (result : Except MintError (Option Identifier))
  | done
  | verdicts (accepted : List Bool)
  | parsed (identifier : Option Identifier)

namespace Mint
variable {σ τ : Type} [Sequencer σ] [Clock τ]

/-- Answers one request; a fault of the clock takes the place of the answer. -/
def respond (mint : Mint σ τ) : Request → Except ClockFault Reply × Mint σ τ
  | .assignNode seed =>
    let (node, after) := mint.assignNode seed
    (.ok (.node (.ok node)), after)
  | .node => (.ok (.node mint.nodeInForce), mint)
  | .attemptLimit => (.ok (.count mint.attemptLimit), mint)
  | .issue label =>
    let (result, after) := mint.issue label
    (result.map .identifier, after)
  | .issueMany label times =>
    let (latestFirst, after) := issueMany label times [] mint
    (.ok (.identifiers latestFirst.reverse), after)
  | .select label given applyRegistered =>
    let (result, after) := mint.select label given applyRegistered
    (result.map .selection, after)
  | .register constraints => (.ok .done, mint.registerAll constraints)
  | .registered => (.ok (.count mint.registered.length), mint)
  | .verdicts candidate =>
    let (accepted, after) := mint.verdicts candidate
    (accepted.map .verdicts, after)
  | .parse text => (.ok (.parsed (Identifier.parse? text)), mint)

/-- Answers requests one after another; a request that meets a fault does not stop those after
it. -/
def run (mint : Mint σ τ) : List Request → List (Except ClockFault Reply) × Mint σ τ
  | [] => ([], mint)
  | request :: requests =>
    let (reply, after) := mint.respond request
    let (replies, final) := after.run requests
    (reply :: replies, final)

end Mint
end Mintmark
