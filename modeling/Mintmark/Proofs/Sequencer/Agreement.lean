import Mintmark.Proofs.Sequencer.Source

/-!
Both sequencers over the same readings, polled by one caller and with nothing that runs inside a
reading. As long as no reading lies beyond what the word can hold, the word is what the lock guards,
but for sequences past the last one, and those are full like the last one.
-/
namespace Mintmark

namespace Stamp

def capped (stamp : Stamp) : Stamp := { stamp with sequence := min stamp.sequence maxSequence }

theorem capped_of_le {stamp : Stamp} (small : stamp.sequence ≤ maxSequence) : stamp.capped = stamp := by
  have kept : min stamp.sequence maxSequence = stamp.sequence := if_pos small
  rw [capped, kept]

theorem sequence_capped_le (stamp : Stamp) : stamp.capped.sequence ≤ maxSequence := Std.min_le_right

theorem hasRoom_capped (stamp : Stamp) : stamp.capped.hasRoom = stamp.hasRoom := by
  apply decide_eq_decide.2
  rw [← UInt16.not_le, ← UInt16.not_le, capped, Std.le_min_iff]
  simp only [UInt16.le_refl, and_true]

theorem successor_capped (stamp : Stamp) (now : UInt64) :
    stamp.capped.successor now = stamp.successor now := by
  cases room : stamp.hasRoom with
  | true =>
    have small : stamp.sequence < maxSequence := of_decide_eq_true room
    rw [capped_of_le (UInt16.le_of_lt small)]
  | false =>
    have full : stamp.capped.hasRoom = false := by rw [hasRoom_capped, room]
    simp only [successor, full, room]
    rfl

end Stamp

structure Mirrors (word : WordSequencer) (guarded : GuardedSequencer) : Prop where
  held : word.held = guarded.last.capped
  sound : guarded.poisoned = false

theorem mirrors_ofStamp {last : Stamp} (small : last.millis ≤ WordSequencer.maxMillis) :
    Mirrors (.ofStamp last) (.ofStamp last) where
  held := by
    have kept : min last.millis WordSequencer.maxMillis = last.millis := if_pos small
    have word : WordSequencer.ofStamp last = ⟨last.capped.toWord⟩ := by
      rw [WordSequencer.ofStamp, kept, Stamp.capped]
    rw [word]
    apply WordSequencer.held_ofWord
    · exact Nat.lt_succ_of_le (UInt64.le_iff_toNat_le.1 small)
    · exact UInt16.le_iff_toNat_le.1 last.sequence_capped_le
  sound := rfl

theorem Mirrors.settle {word : WordSequencer} {guarded : GuardedSequencer}
    (mirrors : Mirrors word guarded) {now : UInt64} (within : now ≤ WordSequencer.maxMillis) :
    (guarded.settle now).1 = (word.settle word now).1 ∧
      Mirrors (word.settle word now).2 (guarded.settle now).2 := by
  have seen : min now WordSequencer.maxMillis = now := if_pos within
  have proposed : word.proposal now = guarded.last.successor now := by
    rw [WordSequencer.proposal, mirrors.held, seen, Stamp.successor_capped]
  cases successor : guarded.last.successor now with
  | retry wait =>
    rw [successor] at proposed
    rw [WordSequencer.settle_of_retry proposed, GuardedSequencer.settle, successor]
    exact ⟨rfl, mirrors⟩
  | issued stamp =>
    rw [successor] at proposed
    rw [WordSequencer.settle_of_issued proposed, WordSequencer.exchange, if_pos rfl,
      GuardedSequencer.settle, successor]
    obtain ⟨-, small, -⟩ := Stamp.successor_issued successor
    have uncut : stamp.capped = stamp := Stamp.capped_of_le (UInt16.le_iff_toNat_le.2 small)
    exact ⟨rfl, (WordSequencer.held_of_proposal proposed).trans uncut.symm, mirrors.sound⟩

/-- Two operations give the same answer and leave alike states, or find no reading left. -/
inductive Parallel {ε α γ ω : Type} (stuck : ε) (alike spent : γ → ω → Prop) :
    Except ε α × γ → Except ε α × ω → Prop
  | answered (answer : α) {left : γ} {right : ω} (states : alike left right) :
    Parallel stuck alike spent (.ok answer, left) (.ok answer, right)
  | exhausted {left : γ} {right : ω} (states : spent left right) :
    Parallel stuck alike spent (.error stuck, left) (.error stuck, right)

section Transcript
variable {ι ρ γ ω : Type}

/-- The replies to requests, each with the readings left after it. The first reply that is not
complete is left out, and nothing follows it. -/
def transcript (respond : γ → ι → ρ × γ) (complete : ρ → Bool) (readings : γ → List Moment) :
    γ → List ι → List (Option ρ × List Moment)
  | _, [] => []
  | state, request :: requests =>
    let (reply, after) := respond state request
    if complete reply then
      (some reply, readings after) :: transcript respond complete readings after requests
    else [(none, readings after)]

/-- The same replies over the same readings; a reply is missing only for want of readings. -/
structure Agree (left right : List (Option ρ × List Moment)) : Prop where
  same : left = right
  wanting : ∀ readings, (none, readings) ∈ right → readings = []

inductive Echoes (complete : ρ → Bool) (alike spent : γ → ω → Prop) : ρ × γ → ρ × ω → Prop
  | same (reply : ρ) (whole : complete reply = true) {left : γ} {right : ω}
    (states : alike left right) : Echoes complete alike spent (reply, left) (reply, right)
  | broken {reply other : ρ} (first : complete reply = false) (second : complete other = false)
    {left : γ} {right : ω} (states : spent left right) :
    Echoes complete alike spent (reply, left) (other, right)

theorem Parallel.echoes {ε α β : Type} {stuck : ε} {alike spent : γ → ω → Prop}
    {locked : Except ε α × γ} {exchanged : Except ε α × ω}
    (parallel : Parallel stuck alike spent locked exchanged) {complete : Except ε β → Bool}
    {reply : α → β} (whole : ∀ answer, complete (.ok (reply answer)) = true)
    (short : complete (.error stuck) = false) :
    Echoes complete alike spent (locked.1.map reply, locked.2)
      (exchanged.1.map reply, exchanged.2) := by
  cases parallel with
  | answered answer states => exact .same _ (whole answer) states
  | exhausted states => exact .broken short short states

theorem agree_transcript {respond : γ → ι → ρ × γ} {other : ω → ι → ρ × ω} {complete : ρ → Bool}
    {alike spent : γ → ω → Prop} {first : γ → List Moment} {second : ω → List Moment}
    (clock : ∀ {left right}, alike left right → first left = second right)
    (empty : ∀ {left right}, spent left right → first left = [] ∧ second right = [])
    (step : ∀ {left right} (request : ι), alike left right →
      Echoes complete alike spent (respond left request) (other right request))
    (requests : List ι) : ∀ {left right}, alike left right →
      Agree (transcript respond complete first left requests)
        (transcript other complete second right requests) := by
  induction requests with
  | nil =>
    intro left right states
    exact ⟨rfl, fun _ missing => nomatch missing⟩
  | cons request requests rest =>
    intro left right states
    have echoes := step request states
    rw [transcript, transcript]
    generalize respond left request = locked, other right request = exchanged at echoes ⊢
    cases echoes with
    | same reply whole states =>
      obtain ⟨same, wanting⟩ := rest states
      simp only [whole, if_true, clock states, same]
      refine ⟨rfl, ?_⟩
      intro readings missing
      rcases List.mem_cons.1 missing with replied | later
      · cases replied
      · exact wanting readings later
    | broken short alsoShort states =>
      simp only [short, alsoShort, Bool.false_eq_true, if_false, empty states]
      refine ⟨rfl, ?_⟩
      intro readings missing
      cases List.mem_singleton.1 missing
      rfl

end Transcript

namespace Source

inductive Call where
  | poll
  | next

def respond {σ τ : Type} [Sequencer σ] [Clock τ] (source : Source σ τ) :
    Call → Except Stop Attempt × Source σ τ
  | .poll => source.poll
  | .next =>
    let (result, after) := source.next
    (result.map .issued, after)

def answers {σ : Type} [Sequencer σ] (source : Source σ (List Moment)) (calls : List Call) :
    List (Option (Except Stop Attempt) × List Moment) :=
  transcript respond Except.isOk clock source calls

structure Alike (guarded : Source GuardedSequencer (List Moment))
    (word : Source WordSequencer (List Moment)) : Prop where
  mirrors : Mirrors word.sequencer guarded.sequencer
  clock : guarded.clock = word.clock
  readings : ∀ moment ∈ word.clock, ∃ now, moment = .reading now ∧ now ≤ WordSequencer.maxMillis

def Spent (guarded : Source GuardedSequencer (List Moment))
    (word : Source WordSequencer (List Moment)) : Prop :=
  guarded.clock = [] ∧ word.clock = []

theorem alike_ofStamp {last : Stamp} {readings : List UInt64}
    (small : last.millis ≤ WordSequencer.maxMillis)
    (within : ∀ now ∈ readings, now ≤ WordSequencer.maxMillis) :
    Alike { sequencer := .ofStamp last, clock := readings.map .reading }
      { sequencer := .ofStamp last, clock := readings.map .reading } where
  mirrors := mirrors_ofStamp small
  clock := rfl
  readings moment member := by
    obtain ⟨now, read, rfl⟩ := List.mem_map.1 member
    exact ⟨now, rfl, within now read⟩

variable {guarded : Source GuardedSequencer (List Moment)}
  {word : Source WordSequencer (List Moment)}

theorem Alike.poll (alike : Alike guarded word) :
    Parallel (.clock .stuck) Alike Spent guarded.poll word.poll := by
  obtain ⟨sequencer, clock, overlapped⟩ := guarded
  obtain ⟨other, moments, inside⟩ := word
  obtain ⟨mirrors, same, readings⟩ := alike
  dsimp only at mirrors same readings
  subst same
  have sound : Sequencer.poisoned sequencer = false := mirrors.sound
  cases clock with
  | nil =>
    rw [Source.poll, sound]
    exact .exhausted ⟨rfl, rfl⟩
  | cons moment rest =>
    obtain ⟨now, rfl, within⟩ := readings moment (List.mem_cons_self ..)
    obtain ⟨answer, settled⟩ := mirrors.settle within
    have locked : Source.poll ⟨sequencer, .reading now :: rest, overlapped⟩ =
        (.ok (sequencer.settle now).1, ⟨(sequencer.settle now).2, rest, overlapped ++ []⟩) := by
      rw [Source.poll, sound]
      rfl
    have exchanged : Source.poll ⟨other, .reading now :: rest, inside⟩ =
        (.ok (other.settle other now).1, ⟨(other.settle other now).2, rest, inside ++ []⟩) := rfl
    rw [locked, exchanged, answer]
    exact .answered _ ⟨settled, rfl, fun moment member => readings moment (.tail _ member)⟩

theorem Alike.poll_ok (alike : Alike guarded word) {answer : Attempt}
    {after : Source GuardedSequencer (List Moment)} (polled : guarded.poll = (.ok answer, after)) :
    ∃ other, word.poll = (.ok answer, other) ∧ Alike after other := by
  have polls := alike.poll
  rw [polled] at polls
  generalize word.poll = exchanged at polls ⊢
  cases polls with
  | answered _ states => exact ⟨_, rfl, states⟩

theorem Alike.next (alike : Alike guarded word) :
    Parallel (.clock .stuck) Alike Spent guarded.next word.next := by
  induction guarded using next.induct generalizing word with
  | case1 guarded stop after polled =>
    have polls := alike.poll
    rw [polled] at polls
    generalize exchanged : word.poll = ended at polls
    cases polls with
    | exhausted states =>
      rw [next_of_stop polled, next_of_stop exchanged]
      exact .exhausted states
  | case2 guarded stamp after polled =>
    obtain ⟨other, exchanged, states⟩ := alike.poll_ok polled
    rw [next_of_issued polled, next_of_issued exchanged]
    exact .answered stamp states
  | case3 guarded wait after polled rest =>
    obtain ⟨other, exchanged, states⟩ := alike.poll_ok polled
    rw [next_of_retry polled, next_of_retry exchanged]
    exact rest states

theorem Alike.respond (call : Call) (alike : Alike guarded word) :
    Echoes Except.isOk Alike Spent (guarded.respond call) (word.respond call) := by
  cases call with
  | poll =>
    have polls := alike.poll
    rw [Source.respond, Source.respond]
    generalize guarded.poll = locked, word.poll = exchanged at polls ⊢
    cases polls with
    | answered answer states => exact .same _ rfl states
    | exhausted states => exact .broken rfl rfl states
  | next => exact alike.next.echoes (fun _ => rfl) rfl

theorem Alike.agree (alike : Alike guarded word) (calls : List Call) :
    Agree (guarded.answers calls) (word.answers calls) :=
  agree_transcript (fun states => states.clock) id (fun call states => states.respond call) calls
    alike

end Source
end Mintmark
