import Mintmark.Proofs.Mint.Issue
import Mintmark.Proofs.Mint.Lockstep
import Mintmark.Proofs.Sequencer.Agreement

/-!
Mints over the two sequencers. A mint sees of its sequencer the stamps alone, so mints over the same
readings give the same identifiers and the same errors, to whoever asks and to constraints that draw
while they are asked.
-/
namespace Mintmark
open WordSequencer (maxMillis)

section Lockstep
variable {α γ ω : Type} {alike spent : γ → ω → Prop} {fault : ClockFault}
  {left : Except ClockFault α × γ} {right : Except ClockFault α × ω}

theorem Parallel.lockstep (parallel : Parallel fault alike spent left right) :
    Lockstep alike (fun cause left right => cause = fault ∧ spent left right) left right := by
  cases parallel with
  | answered answer states => exact .answered answer states
  | exhausted states => exact .halted fault ⟨rfl, states⟩

theorem Lockstep.parallel
    (steps : Lockstep alike (fun cause left right => cause = fault ∧ spent left right) left right) :
    Parallel fault alike spent left right := by
  cases steps with
  | answered answer states => exact .answered answer states
  | halted cause states =>
    obtain ⟨rfl, states⟩ := states
    exact .exhausted states

end Lockstep

namespace Mint

def faultless (results : List (Except ClockFault (Except MintError Identifier))) : Bool :=
  results.all Except.isOk

/-- No fault of the clock stands in place of the reply or among its results. -/
def complete : Except ClockFault Reply → Bool
  | .error _ => false
  | .ok (.identifiers results) => faultless results
  | .ok _ => true

structure Alike (guarded : Mint GuardedSequencer (List Moment))
    (word : Mint WordSequencer (List Moment)) : Prop where
  source : guarded.source.Alike word.source
  node : guarded.node = word.node
  registered : guarded.registered = word.registered
  attemptLimit : guarded.attemptLimit = word.attemptLimit

def Spent (guarded : Mint GuardedSequencer (List Moment))
    (word : Mint WordSequencer (List Moment)) : Prop :=
  guarded.source.Spent word.source

variable {guarded : Mint GuardedSequencer (List Moment)} {word : Mint WordSequencer (List Moment)}

theorem Alike.record (alike : Alike guarded word) (event : Event) :
    Alike (guarded.record event) (word.record event) where
  source := alike.source
  node := alike.node
  registered := alike.registered
  attemptLimit := alike.attemptLimit

theorem Alike.register (alike : Alike guarded word) (constraint : Constraint) :
    Alike (guarded.register constraint) (word.register constraint) where
  source := alike.source
  node := alike.node
  registered := congrArg (· ++ [constraint]) alike.registered
  attemptLimit := alike.attemptLimit

theorem Alike.registerAll (constraints : List Constraint) :
    ∀ {guarded word}, Alike guarded word →
      Alike (guarded.registerAll constraints) (word.registerAll constraints) := by
  induction constraints with
  | nil =>
    intro guarded word alike
    exact alike
  | cons constraint constraints rest =>
    intro guarded word alike
    exact rest (alike.register constraint)

theorem Alike.assignNode (alike : Alike guarded word) (seed : Nat) :
    (guarded.assignNode seed).1 = (word.assignNode seed).1 ∧
      Alike (guarded.assignNode seed).2 (word.assignNode seed).2 := by
  have assigned : guarded.node.assign seed = word.node.assign seed := by rw [alike.node]
  exact ⟨congrArg Prod.fst assigned, alike.source, congrArg Prod.snd assigned, alike.registered,
    alike.attemptLimit⟩

theorem Alike.issue (alike : Alike guarded word) (label : String) :
    Parallel .stuck Alike Spent (guarded.issue label) (word.issue label) := by
  have stamps := alike.source.next
  have held : guarded.node.held = word.node.held := congrArg NodeCell.held alike.node
  unfold Mint.issue
  rw [held]
  generalize guarded.source.next = locked, word.source.next = exchanged at stamps ⊢
  split
  · exact .answered _ alike
  · split
    · exact .answered _ alike
    · rename_i node held
      cases stamps with
      | exhausted states => exact .exhausted states
      | answered stamp sources =>
        have drawn : Alike { guarded with source := _ } { word with source := _ } :=
          ⟨sources, alike.node, alike.registered, alike.attemptLimit⟩
        dsimp only
        split
        · exact .answered _ drawn
        · exact .answered _ (drawn.record _)

theorem simulation_alike :
    Simulation Alike (fun cause left right => cause = .stuck ∧ Spent left right) (· = ·) :=
  simulation_same (fun alike label => (alike.issue label).lockstep)
    (fun alike constraint => alike.register constraint) (fun alike event => alike.record event)

theorem Alike.select (alike : Alike guarded word) (label : String) (given : List Constraint)
    (applyRegistered : Bool) :
    Parallel .stuck Alike Spent (guarded.select label given applyRegistered)
      (word.select label given applyRegistered) := by
  rw [Mint.select, Mint.select, members, members, alike.registered, alike.attemptLimit]
  exact (simulation_alike.attempt label (List.forall₂_refl _) _ alike).parallel

theorem Alike.verdicts (alike : Alike guarded word) (candidate : Identifier) :
    Parallel .stuck Alike Spent (guarded.verdicts candidate) (word.verdicts candidate) := by
  rw [Mint.verdicts, Mint.verdicts, alike.registered]
  exact (simulation_alike.askAll candidate (List.forall₂_refl _) alike).parallel

section Exhausted
variable {σ : Type} [Sequencer σ] [Holding σ]

theorem clock_issue_nil {mint : Mint σ (List Moment)} (spent : mint.source.clock = [])
    (label : String) : (mint.issue label).2.source.clock = [] := by
  obtain ⟨own, inside, consumed, -⟩ := Source.next_own mint.source
  rw [spent] at consumed
  have left : mint.source.next.2.clock = [] := (List.append_eq_nil_iff.1 consumed.symm).2
  have ends := issue_ends mint label
  generalize (mint.issue label).1 = result, (mint.issue label).2 = after at ends ⊢
  cases ends with
  | unlabelled => exact spent
  | unassigned => exact spent
  | fault => exact left
  | poisoned => exact left
  | refused => exact left
  | minted => exact left

theorem issueMany_exhausted (label : String) (times : Nat) :
    ∀ {results : List (Except ClockFault (Except MintError Identifier))} {mint : Mint σ (List Moment)},
      faultless results = false → mint.source.clock = [] →
        faultless (issueMany label times results mint).1 = false ∧
          (issueMany label times results mint).2.source.clock = [] := by
  induction times with
  | zero =>
    intro results mint broken spent
    exact ⟨broken, spent⟩
  | succ times rest =>
    intro results mint broken spent
    apply rest
    · rw [faultless, List.all_cons]
      exact Bool.and_eq_false_imp.2 fun _ => broken
    · exact clock_issue_nil spent label

end Exhausted

theorem Alike.issueMany (label : String) (times : Nat) :
    ∀ {results : List (Except ClockFault (Except MintError Identifier))} {guarded word},
      faultless results = true → Alike guarded word →
        Echoes faultless Alike Spent
          (issueMany label times results guarded) (issueMany label times results word) := by
  induction times with
  | zero =>
    intro results guarded word whole alike
    exact .same results whole alike
  | succ times rest =>
    intro results guarded word whole alike
    have issued := alike.issue label
    rw [Mint.issueMany, Mint.issueMany]
    generalize guarded.issue label = locked, word.issue label = exchanged at issued ⊢
    cases issued with
    | answered result states => exact rest whole states
    | exhausted spent =>
      -- From here on the two answer differently, but the fault stays among the results of both.
      have broken : faultless (.error .stuck :: results) = false := rfl
      obtain ⟨locked, lockedSpent⟩ := issueMany_exhausted label times broken spent.1
      obtain ⟨exchanged, exchangedSpent⟩ := issueMany_exhausted label times broken spent.2
      exact .broken locked exchanged ⟨lockedSpent, exchangedSpent⟩

theorem Alike.respond (request : Request) (alike : Alike guarded word) :
    Echoes complete Alike Spent (guarded.respond request) (word.respond request) := by
  cases request with
  | assignNode seed =>
    obtain ⟨node, states⟩ := alike.assignNode seed
    simp only [Mint.respond, node]
    exact .same _ rfl states
  | node =>
    rw [Mint.respond, Mint.respond, nodeInForce, nodeInForce, alike.node]
    exact .same _ rfl alike
  | attemptLimit =>
    rw [Mint.respond, Mint.respond, alike.attemptLimit]
    exact .same _ rfl alike
  | issue label => exact (alike.issue label).echoes (fun _ => rfl) rfl
  | issueMany label times =>
    have none : faultless [] = true := rfl
    have issued := Alike.issueMany label times none alike
    rw [Mint.respond, Mint.respond]
    generalize Mint.issueMany label times [] guarded = locked,
      Mint.issueMany label times [] word = exchanged at issued ⊢
    cases issued with
    | same results whole states =>
      have all : complete (.ok (.identifiers results.reverse)) = true :=
        List.all_reverse.trans whole
      exact .same _ all states
    | @broken results other first second _ _ states =>
      have broken : complete (.ok (.identifiers results.reverse)) = false :=
        List.all_reverse.trans first
      have alsoBroken : complete (.ok (.identifiers other.reverse)) = false :=
        List.all_reverse.trans second
      exact .broken broken alsoBroken states
  | select label given applyRegistered =>
    exact (alike.select label given applyRegistered).echoes (fun _ => rfl) rfl
  | register constraints => exact .same _ rfl (Alike.registerAll constraints alike)
  | registered =>
    rw [Mint.respond, Mint.respond, alike.registered]
    exact .same _ rfl alike
  | verdicts candidate => exact (alike.verdicts candidate).echoes (fun _ => rfl) rfl
  | parse text => exact .same _ rfl alike

theorem alike_fresh {last : Stamp} {readings : List UInt64} (small : last.millis ≤ maxMillis)
    (within : ∀ now ∈ readings, now ≤ maxMillis) (attempts : Nat) :
    Alike (fresh (.ofStamp last) (readings.map .reading) attempts)
      (fresh (.ofStamp last) (readings.map .reading) attempts) where
  source := Source.alike_ofStamp small within
  node := rfl
  registered := rfl
  attemptLimit := rfl

def replies {σ : Type} [Sequencer σ] (mint : Mint σ (List Moment)) (requests : List Request) :
    List (Option (Except ClockFault Reply) × List Moment) :=
  transcript respond complete (·.source.clock) mint requests

theorem Alike.agree (alike : Alike guarded word) (requests : List Request) :
    Agree (guarded.replies requests) (word.replies requests) :=
  agree_transcript (fun states => states.source.clock) id
    (fun request states => states.respond request) requests alike

/-- From a stamp that fits the word, over readings that fit it, nobody can tell one sequencer from
the other: not by polls and waits, and not by what is asked of a mint. -/
theorem sequencers_agree (last : Stamp) (small : last.millis ≤ maxMillis)
    (readings : List UInt64) (within : ∀ now ∈ readings, now ≤ maxMillis) :
    (∀ calls : List Source.Call, Agree
      (Source.answers ⟨GuardedSequencer.ofStamp last, readings.map .reading, []⟩ calls)
      (Source.answers ⟨WordSequencer.ofStamp last, readings.map .reading, []⟩ calls)) ∧
    ∀ (attempts : Nat) (requests : List Request), Agree
      ((fresh (GuardedSequencer.ofStamp last) (readings.map .reading) attempts).replies requests)
      ((fresh (WordSequencer.ofStamp last) (readings.map .reading) attempts).replies requests) := by
  constructor
  · intro calls
    exact (Source.alike_ofStamp small within).agree calls
  · intro attempts requests
    exact (alike_fresh small within attempts).agree requests

/-- The sequence held is past the last one, so the first reading is in vain; the constraint draws an
identifier of its own while it is asked. -/
theorem sequencers_agree_exhausted :
    Source.answers ⟨WordSequencer.ofStamp ⟨1606298343064, 1200⟩,
          [1606298343064, 1606298343065, 1606298343065].map .reading, []⟩ [.poll, .next] =
        [(some (.ok (.retry 1)), [.reading 1606298343065, .reading 1606298343065]),
          (some (.ok (.issued ⟨1606298343065, 0⟩)), [.reading 1606298343065])] ∧
      ((fresh (WordSequencer.ofStamp ⟨1606298343064, 1200⟩)
          ([1606298343064, 1606298343065, 1606298343065].map .reading) 1000).replies
            [.assignNode 7, .select "A" [Constraint.drawing] true]).map
          (fun (reply, left) => (reply.isSome, left.length)) = [(true, 3), (true, 0)] := by
  obtain ⟨answers, replies⟩ := sequencers_agree ⟨1606298343064, 1200⟩ (by decide)
    [1606298343064, 1606298343065, 1606298343065] (by simp [maxMillis])
  rw [← (answers _).same, ← (replies _ _).same]
  constructor
  · with_unfolding_all rfl
  · with_unfolding_all rfl

end Mint
end Mintmark
