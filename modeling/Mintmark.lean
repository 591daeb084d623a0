import Mintmark.Clock.Script
import Mintmark.Main
import Mintmark.Mint.Request
import Mintmark.Sequencer.Word
import Mintmark.Survey
import Mintmark.Proofs.Calendar
import Mintmark.Proofs.Identifier.Grammar
import Mintmark.Proofs.Identifier.Stamp
import Mintmark.Proofs.Instant
import Mintmark.Proofs.Mint.Agreement
import Mintmark.Proofs.Mint.Issue
import Mintmark.Proofs.Mint.Order
import Mintmark.Proofs.Mint.Refusal
import Mintmark.Proofs.Sequencer.Race.Nested
import Mintmark.Proofs.Sequencer.Race.Order
import Mintmark.Proofs.Mint.Past
import Mintmark.Proofs.Mint.Selection
import Mintmark.Proofs.Mint.Shard
import Mintmark.Proofs.Mint.Resumption
import Mintmark.Proofs.Mint.Turn
import Mintmark.Proofs.Fleet
import Mintmark.Proofs.Mint.Poison
import Mintmark.Proofs.Sequencer.Race.Present
import Mintmark.Proofs.Sequencer.Range
import Mintmark.Proofs.Sequencer.Fresh
import Mintmark.Proofs.Sequencer.Wait
import Mintmark.Proofs.Mint.Registration
import Mintmark.Proofs.Program.Printing
import Mintmark.Proofs.Partition
import Mintmark.Proofs.Mint.Coverage
import Mintmark.Proofs.Identifier.Writing
import Mintmark.Proofs.Mint.Errors
import Mintmark.Proofs.Identifier.Refusal
import Mintmark.Proofs.Identifier.Words
import Mintmark.Proofs.Identifier.Offender
import Mintmark.Proofs.Hash
import Mintmark.Proofs.Identifier.Millis
import Mintmark.Proofs.Identity
import Mintmark.Proofs.Program.Ending
import Mintmark.Proofs.Program.Lines
import Mintmark.Proofs.Report
import Mintmark.Proofs.Clock.Anchored
import Mintmark.Proofs.Sequencer.Packing
import Mintmark.Proofs.Identifier.Json
