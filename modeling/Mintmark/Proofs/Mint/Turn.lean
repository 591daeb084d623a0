import Mintmark.Proofs.Identifier.Stamp
import Mintmark.Proofs.Mint.Issue
import Mintmark.Proofs.Sequencer.Source

/-!
Requests taken apart into acts between which others may come: the assignment of a node, one poll on
the way to an identifier, a constraint that is registered or asked.
-/
namespace Mintmark

inductive Act (σ : Type) where
  | assignNode (seed : Nat)
  /-- A poll comes to its end. The sequencer may hold more than what the poll loaded when it began. -/
  | turn (label : String) (loaded : σ)
  | register (constraint : Constraint)
  | ask (member : Member) (candidate : Identifier)

namespace Mint
variable {σ τ : Type} [Sequencer σ] [Clock τ]

def turn (mint : Mint σ τ) (label : String) (loaded : σ) : Mint σ τ :=
  if label.isEmpty then mint
  else
    match mint.node.held with
    | none => mint
    | some node =>
      match mint.source.finish loaded with
      | (.ok (.issued stamp), source) =>
        let drawn := { mint with source }
        match Identifier.ofParts label (.ofMillis stamp.millis) node stamp.sequence with
        | .error _ => drawn
        | .ok identifier => drawn.record (.minted identifier)
      | (_, source) => { mint with source }

def act (mint : Mint σ τ) : Act σ → Mint σ τ
  | .assignNode seed => (mint.assignNode seed).2
  | .turn label loaded => mint.turn label loaded
  | .register constraint => mint.register constraint
  | .ask member candidate => mint.record (.asked member candidate)

def actAll (mint : Mint σ τ) (acts : List (Act σ)) : Mint σ τ := acts.foldl act mint

/-- What the caller of a turn receives, if its poll draws a stamp for an identifier. -/
def yields (mint : Mint σ τ) : Act σ → Option Identifier
  | .turn label loaded =>
    if label.isEmpty then none
    else
      match mint.node.held, (mint.source.finish loaded).1 with
      | some node, .ok (.issued stamp) =>
        (Identifier.ofParts label (.ofMillis stamp.millis) node stamp.sequence).toOption
      | _, _ => none
  | _ => none

theorem minted_turn (mint : Mint σ τ) (label : String) (loaded : σ) :
    (mint.turn label loaded).minted = mint.minted ++ (mint.yields (.turn label loaded)).toList := by
  unfold turn yields
  dsimp only
  split
  · simp
  · cases mint.node.held with
    | none => simp
    | some node =>
      obtain ⟨answer, source⟩ := mint.source.finish loaded
      rcases answer with stop | stamp | wait
      · simp [minted]
      · dsimp only
        cases Identifier.ofParts label (.ofMillis stamp.millis) node stamp.sequence with
        | error error => simp [minted, Except.toOption]
        | ok identifier => exact minted_record_minted _ identifier
      · simp [minted]

theorem minted_act (mint : Mint σ τ) (act : Act σ) :
    (mint.act act).minted = mint.minted ++ (mint.yields act).toList := by
  cases act with
  | turn label loaded => exact mint.minted_turn label loaded
  | ask member candidate =>
    exact (minted_record_asked mint member candidate).trans (List.append_nil _).symm
  | assignNode | register => exact (List.append_nil _).symm

theorem actAll_append (mint : Mint σ τ) (first second : List (Act σ)) :
    mint.actAll (first ++ second) = (mint.actAll first).actAll second := List.foldl_append

theorem issue_of_no_turn (mint : Mint σ τ) {label : String}
    (idle : label = "" ∨ mint.node.held = none) : (mint.issue label).2 = mint := by
  have ends := issue_ends mint label
  generalize (mint.issue label).1 = result, (mint.issue label).2 = after at ends ⊢
  cases ends with
  | unlabelled => rfl
  | unassigned => rfl
  | fault nonempty node held => simp [nonempty, held] at idle
  | poisoned nonempty node held => simp [nonempty, held] at idle
  | refused nonempty node held => simp [nonempty, held] at idle
  | minted nonempty node held => simp [nonempty, held] at idle

theorem turn_of_retry {mint : Mint σ τ} {label : String} (nonempty : label.isEmpty = false)
    {node : Node} (held : mint.node.held = some node) {wait : UInt64} {after : Source σ τ}
    (polled : mint.source.poll = (.ok (.retry wait), after)) :
    mint.turn label mint.source.sequencer = { mint with source := after } := by
  simp [turn, nonempty, held, Source.finish_sequencer, polled]

theorem issue_of_retry {mint : Mint σ τ} {label : String} (nonempty : label.isEmpty = false)
    {node : Node} (held : mint.node.held = some node) {wait : UInt64} {after : Source σ τ}
    (polled : mint.source.poll = (.ok (.retry wait), after)) :
    (mint.issue label).2 = (({ mint with source := after } : Mint σ τ).issue label).2 := by
  simp only [issue, nonempty, held, Source.next_of_retry polled, Bool.false_eq_true, if_false]

theorem exists_turns_eq {label : String} (nonempty : label.isEmpty = false) {node : Node}
    (source : Source σ τ) : ∀ mint : Mint σ τ, mint.source = source → mint.node.held = some node →
      ∃ acts, (mint.issue label).2 = mint.actAll acts := by
  induction source using Source.next_induction with
  | stopped source after stop polled =>
    rintro mint rfl held
    refine ⟨[.turn label mint.source.sequencer], ?_⟩
    cases stop <;>
      simp [issue, actAll, act, turn, nonempty, held, Source.next_of_stop polled,
        Source.finish_sequencer, polled]
  | issued source after stamp polled =>
    rintro mint rfl held
    refine ⟨[.turn label mint.source.sequencer], ?_⟩
    simp only [issue, actAll, act, turn, nonempty, held, Source.next_of_issued polled,
      Source.finish_sequencer, polled, List.foldl]
    cases Identifier.ofParts label (.ofMillis stamp.millis) node stamp.sequence <;> rfl
  | again source after wait polled rest =>
    rintro mint rfl held
    obtain ⟨acts, rest⟩ := rest { mint with source := after } rfl held
    refine ⟨.turn label mint.source.sequencer :: acts, ?_⟩
    rw [issue_of_retry nonempty held polled, rest, ← turn_of_retry nonempty held polled]
    rfl

/-- An identifier is issued by turns that are not met by others, one for each poll of its wait. -/
theorem exists_issue_eq (mint : Mint σ τ) (label : String) :
    ∃ acts, (mint.issue label).2 = mint.actAll acts := by
  by_cases idle : label = "" ∨ mint.node.held = none
  · exact ⟨[], issue_of_no_turn mint idle⟩
  · rw [not_or, ← ne_eq, ← ne_eq, Option.ne_none_iff_exists'] at idle
    obtain ⟨labelled, node, held⟩ := idle
    exact exists_turns_eq (by simpa using labelled) mint.source mint rfl held

theorem Reaches.exists_acts {mint last : Mint σ τ} (reaches : Reaches mint last) :
    ∃ acts, last = mint.actAll acts := by
  induction reaches with
  | refl mint => exact ⟨[], rfl⟩
  | @issue mint _ label _ rest =>
    obtain ⟨turns, issued⟩ := exists_issue_eq mint label
    obtain ⟨acts, same⟩ := rest
    exact ⟨turns ++ acts, by rw [same, issued, actAll_append]⟩
  | register constraint _ rest =>
    obtain ⟨acts, same⟩ := rest
    exact ⟨.register constraint :: acts, same⟩
  | ask member candidate _ rest =>
    obtain ⟨acts, same⟩ := rest
    exact ⟨.ask member candidate :: acts, same⟩

theorem exists_respond_eq (mint : Mint σ τ) (request : Request) :
    ∃ acts, (mint.respond request).2 = mint.actAll acts := by
  cases offers : request.seed? with
  | some seed =>
    rw [Request.eq_assignNode offers]
    exact ⟨[.assignNode seed], rfl⟩
  | none => exact (reaches_respond mint request offers).exists_acts

variable [Holding σ]
open Settling

/-- What one act can do: the node stays once it is there, the sequencer never goes back, and an
identifier that is issued has the stamp that the sequencer is moved to. -/
structure Advances (mint after : Mint σ τ) : Prop where
  node : ∀ node, mint.node.held = some node → after.node.held = some node
  le : held mint.source.sequencer ≤ held after.source.sequencer
  minted : after.minted = mint.minted ∨
    ∃ identifier, after.minted = mint.minted ++ [identifier] ∧ identifier.Canonical ∧
      after.node.held = some identifier.node ∧ held mint.source.sequencer < identifier.stamp ∧
      held after.source.sequencer = identifier.stamp

theorem advances_turn (mint : Mint σ τ) (label : String) (loaded : σ) :
    Advances mint (mint.turn label loaded) := by
  unfold turn
  split
  · exact ⟨fun _ held => held, Stamp.le_refl _, .inl rfl⟩
  · split
    · exact ⟨fun _ held => held, Stamp.le_refl _, .inl rfl⟩
    · rename_i node assigned
      split
      · rename_i stamp source finished
        obtain ⟨above, holds, -⟩ := Source.held_finish finished
        have reaches := Source.held_le_finish finished
        dsimp only
        split
        · exact ⟨fun _ held => held, reaches, .inl rfl⟩
        · rename_i identifier made
          have stamped : Identifier.StampedBy stamp node identifier := ⟨label, made⟩
          obtain ⟨canonical, -, -, same, -, -⟩ := stamped.parts
          refine ⟨fun _ held => held, reaches, .inr ⟨identifier, ?_, canonical, ?_, ?_, ?_⟩⟩
          · exact minted_record_minted _ identifier
          · rw [same]
            exact assigned
          · rw [stamped.stamp_eq]
            exact above
          · rw [stamped.stamp_eq]
            exact holds
      · rename_i outcome source _ finished
        exact ⟨fun _ held => held, Source.held_le_finish finished, .inl rfl⟩

theorem advances_act (mint : Mint σ τ) (act : Act σ) : Advances mint (mint.act act) := by
  cases act with
  | assignNode seed =>
    refine ⟨?_, Stamp.le_refl _, .inl rfl⟩
    intro node held
    simp [Mint.act, assignNode, NodeCell.assign, held]
  | turn label loaded => exact advances_turn mint label loaded
  | register constraint => exact ⟨fun _ held => held, Stamp.le_refl _, .inl rfl⟩
  | ask member candidate =>
    exact ⟨fun _ held => held, Stamp.le_refl _, .inl (minted_record_asked mint member candidate)⟩

end Mint
end Mintmark
