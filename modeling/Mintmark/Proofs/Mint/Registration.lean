import Mintmark.Proofs.Mint.Deeds
import Mintmark.Proofs.Mint.Nesting

/-!
Constraints registered for every call. They are only ever added, by whomever and whenever. A call
goes by those that it found, before its own; what is registered while it runs, by the constraints
that it asks too, is for the calls after it.
-/
namespace Mintmark

structure Round where
  candidate : Identifier
  asked : Nat

namespace Round

def questions (members : List (Member × Constraint)) (round : Round) : List (Member × Identifier) :=
  (members.take round.asked).map fun member => (member.1, round.candidate)

end Round

theorem questions_inquiry {σ τ : Type} [Sequencer σ] [Clock τ] (inquiry : Inquiry) :
    ∀ mint : Mint σ τ, questions (Mint.deedsOfInquiry inquiry mint) = [] := by
  induction inquiry with
  | answer accepted =>
    intro mint
    rfl
  | draw label next rest =>
    intro mint
    rw [Mint.deedsOfInquiry]
    rcases mint.issue label with ⟨fault | result, after⟩
    · rfl
    · exact rest result after
  | register constraint next _ rest =>
    intro mint
    exact rest (mint.register constraint)

namespace Mint
variable {σ τ : Type} [Sequencer σ] [Clock τ]

theorem questions_ask (mint : Mint σ τ) (candidate : Identifier) (member : Member × Constraint) :
    Mintmark.questions (mint.deedsOfAsk candidate member) = [(member.1, candidate)] :=
  congrArg ((member.1, candidate) :: ·) (questions_inquiry _ _)

/-- Among these deeds a member is asked about the candidate of the round, the last of those that are,
and does not accept it. -/
def Stops (mint : Mint σ τ) (deeds : List Deed) (members : List (Member × Constraint))
    (round : Round) : Prop :=
  ∃ early late others member, members.take round.asked = others ++ [member] ∧
    deeds = early ++ (mint.performAll early).deedsOfAsk round.candidate member ++ late ∧
    ((mint.performAll early).ask round.candidate member).1 ≠ .ok true

theorem Stops.after {mint : Mint σ τ} {first deeds : List Deed}
    {members : List (Member × Constraint)} {round : Round}
    (stops : (mint.performAll first).Stops deeds members round) :
    mint.Stops (first ++ deeds) members round := by
  obtain ⟨early, late, others, member, last, rfl, rejects⟩ := stops
  rw [← performAll_append] at rejects
  refine ⟨first ++ early, late, others, member, last, ?_, rejects⟩
  rw [performAll_append]
  simp only [List.append_assoc]

theorem Stops.before {mint : Mint σ τ} {deeds : List Deed} {members : List (Member × Constraint)}
    {round : Round} (stops : mint.Stops deeds members round) (more : List Deed) :
    mint.Stops (deeds ++ more) members round := by
  obtain ⟨early, late, others, member, last, rfl, rejects⟩ := stops
  exact ⟨early, late ++ more, others, member, last, List.append_assoc .., rejects⟩

/-- One round: the members are asked in order, all of them or up to one that does not accept. -/
structure Asked (mint : Mint σ τ) (deeds : List Deed) (members : List (Member × Constraint))
    (round : Round) (verdict : Except ClockFault Bool) : Prop where
  questions : Mintmark.questions deeds = round.questions members
  all : verdict = .ok true → round.asked = members.length
  stops : verdict ≠ .ok true → mint.Stops deeds members round

theorem Stops.cons {mint : Mint σ τ} {deeds : List Deed} {members : List (Member × Constraint)}
    {candidate : Identifier} {asked : Nat} (stops : mint.Stops deeds members ⟨candidate, asked⟩)
    (member : Member × Constraint) : mint.Stops deeds (member :: members) ⟨candidate, asked + 1⟩ := by
  obtain ⟨early, late, others, last, taken, rest⟩ := stops
  exact ⟨early, late, member :: others, last, congrArg (member :: ·) taken, rest⟩

theorem asked_once {mint after : Mint σ τ} {candidate : Identifier} {member : Member × Constraint}
    {verdict : Except ClockFault Bool} (answer : mint.ask candidate member = (verdict, after))
    (rejects : verdict ≠ .ok true) (members : List (Member × Constraint)) :
    mint.Asked (mint.deedsOfAsk candidate member) (member :: members) ⟨candidate, 1⟩ verdict where
  questions := mint.questions_ask candidate member
  all accepted := absurd accepted rejects
  stops _ := ⟨[], [], [], member, rfl, (List.append_nil _).symm, by rwa [performAll, List.foldl_nil, answer]⟩

theorem Asked.cons {mint after : Mint σ τ} {deeds : List Deed} {members : List (Member × Constraint)}
    {candidate : Identifier} {asked : Nat} {verdict : Except ClockFault Bool}
    (rest : after.Asked deeds members ⟨candidate, asked⟩ verdict) {member : Member × Constraint}
    (answer : mint.ask candidate member = (.ok true, after)) :
    mint.Asked (mint.deedsOfAsk candidate member ++ deeds) (member :: members)
      ⟨candidate, asked + 1⟩ verdict where
  questions := by
    rw [questions_append, questions_ask, rest.questions]
    rfl
  all accepted := congrArg (· + 1) (rest.all accepted)
  stops rejected := by
    have reached : mint.performAll (mint.deedsOfAsk candidate member) = after :=
      (mint.performAll_ask candidate member).trans (congrArg Prod.snd answer)
    have stops := (rest.stops rejected).cons member
    rw [← reached] at stops
    exact stops.after

theorem Asked.each {mint : Mint σ τ} {deeds : List Deed} {members : List (Member × Constraint)}
    {round : Round} {verdict : Except ClockFault Bool} (asked : mint.Asked deeds members round verdict) :
    round.asked = members.length ∨ mint.Stops deeds members round := by
  by_cases accepted : verdict = .ok true
  · exact .inl (asked.all accepted)
  · exact .inr (asked.stops accepted)

theorem asked_acceptedByAll (candidate : Identifier) (members : List (Member × Constraint)) :
    ∀ mint : Mint σ τ, ∃ asked,
      mint.Asked (deedsOfMembers accepts candidate members mint) members ⟨candidate, asked⟩
        (acceptedByAll candidate members mint).1 := by
  induction members with
  | nil =>
    intro mint
    exact ⟨0, rfl, fun _ => rfl, fun rejected => absurd rfl rejected⟩
  | cons member members rest =>
    intro mint
    rw [deedsOfMembers, acceptedByAll]
    rcases answer : mint.ask candidate member with ⟨fault | _ | _, after⟩ <;>
      simp only [accepts, Bool.false_eq_true, if_false, if_true, List.append_nil]
    · exact ⟨1, asked_once answer (by simp) members⟩
    · exact ⟨1, asked_once answer (by simp) members⟩
    · obtain ⟨asked, later⟩ := rest after
      exact ⟨asked + 1, later.cons answer⟩

/-- A call: rounds one after another, no more than it has attempts, and the candidate that it returns
is that of the last round, in which everyone was asked. -/
structure Rounds (mint : Mint σ τ) (deeds : List Deed) (members : List (Member × Constraint))
    (attempts : Nat) (result : Except ClockFault (Except MintError (Option Identifier)))
    (rounds : List Round) : Prop where
  questions : Mintmark.questions deeds = rounds.flatMap (·.questions members)
  bounded : rounds.length ≤ attempts
  each : ∀ round ∈ rounds, round.asked = members.length ∨ mint.Stops deeds members round
  selected : ∀ identifier, result = .ok (.ok (some identifier)) →
    ∃ earlier, rounds = earlier ++ [⟨identifier, members.length⟩]
  exhausted : result = .ok (.ok none) → rounds.length = attempts

theorem Rounds.after {mint : Mint σ τ} {first deeds : List Deed}
    {members : List (Member × Constraint)} {attempts : Nat}
    {result : Except ClockFault (Except MintError (Option Identifier))} {rounds : List Round}
    (called : (mint.performAll first).Rounds deeds members attempts result rounds)
    (silent : Mintmark.questions first = []) :
    mint.Rounds (first ++ deeds) members attempts result rounds where
  questions := by rw [questions_append, silent, called.questions, List.nil_append]
  bounded := called.bounded
  each round member := (called.each round member).imp id Stops.after
  selected := called.selected
  exhausted := called.exhausted

theorem rounds_unasked {mint : Mint σ τ} {deeds : List Deed} (silent : Mintmark.questions deeds = [])
    (members : List (Member × Constraint)) (attempts : Nat)
    {result : Except ClockFault (Except MintError (Option Identifier))}
    (ended : ∀ selected, result ≠ .ok (.ok selected)) :
    mint.Rounds deeds members attempts result [] where
  questions := silent
  bounded := Nat.zero_le attempts
  each := List.forall_mem_nil _
  selected _ returned := absurd returned (ended _)
  exhausted none := absurd none (ended _)

theorem Asked.last {mint : Mint σ τ} {deeds : List Deed} {members : List (Member × Constraint)}
    {round : Round} {verdict : Except ClockFault Bool} (asked : mint.Asked deeds members round verdict)
    (attempts : Nat) {result : Except ClockFault (Except MintError (Option Identifier))}
    (selected : ∀ identifier, result = .ok (.ok (some identifier)) →
      verdict = .ok true ∧ identifier = round.candidate) (ended : result ≠ .ok (.ok none)) :
    mint.Rounds deeds members (attempts + 1) result [round] where
  questions := by
    rw [asked.questions, List.flatMap_cons, List.flatMap_nil, List.append_nil]
  bounded := Nat.le_add_left 1 attempts
  each other member := by
    cases List.mem_singleton.1 member
    exact asked.each
  selected identifier returned := by
    obtain ⟨accepted, rfl⟩ := selected identifier returned
    exact ⟨[], by rw [← asked.all accepted]; rfl⟩
  exhausted none := absurd none ended

theorem Asked.again {mint after : Mint σ τ} {deeds later : List Deed}
    {members : List (Member × Constraint)} {round : Round} {verdict : Except ClockFault Bool}
    (asked : mint.Asked deeds members round verdict) (performed : mint.performAll deeds = after)
    {attempts : Nat} {result : Except ClockFault (Except MintError (Option Identifier))}
    {rounds : List Round} (called : after.Rounds later members attempts result rounds) :
    mint.Rounds (deeds ++ later) members (attempts + 1) result (round :: rounds) where
  questions := by rw [questions_append, asked.questions, called.questions, List.flatMap_cons]
  bounded := Nat.succ_le_succ called.bounded
  each := by
    subst performed
    refine List.forall_mem_cons.2 ⟨asked.each.imp id fun stops => stops.before later, ?_⟩
    intro other member
    exact (called.each other member).imp id Stops.after
  selected identifier returned := by
    obtain ⟨earlier, rfl⟩ := called.selected identifier returned
    exact ⟨round :: earlier, rfl⟩
  exhausted none := congrArg (· + 1) (called.exhausted none)

theorem rounds_attempt (label : String) (members : List (Member × Constraint)) (attempts : Nat) :
    ∀ mint : Mint σ τ, ∃ rounds, mint.Rounds (deedsOfAttempts label members attempts mint) members
      attempts (attempt label members attempts mint).1 rounds := by
  induction attempts with
  | zero =>
    intro mint
    refine ⟨[], rfl, Nat.le_refl 0, List.forall_mem_nil _, ?_, fun _ => rfl⟩
    rintro identifier ⟨⟩
  | succ attempts rest =>
    intro mint
    rw [deedsOfAttempts, attempt]
    rcases issued : mint.issue label with ⟨fault | error | candidate, drawn⟩
    · exact ⟨[], rounds_unasked rfl members _ (by simp)⟩
    · exact ⟨[], rounds_unasked rfl members _ (by simp)⟩
    · dsimp only
      obtain ⟨asked, round⟩ := asked_acceptedByAll candidate members drawn
      have performed := performAll_acceptedByAll candidate members drawn
      have draws : mint.performAll [.issue label] = drawn := congrArg Prod.snd issued
      rw [← List.singleton_append]
      suffices called : ∃ rounds, drawn.Rounds _ members _ _ rounds by
        obtain ⟨rounds, called⟩ := called
        rw [← draws] at called
        exact ⟨rounds, called.after rfl⟩
      rcases verdict : acceptedByAll candidate members drawn with ⟨fault | _ | _, after⟩ <;>
        rw [verdict] at round performed
      · rw [List.append_nil]
        exact ⟨_, round.last attempts (by simp) (by simp)⟩
      · obtain ⟨rounds, called⟩ := rest after
        exact ⟨_, round.again performed called⟩
      · rw [List.append_nil]
        refine ⟨_, round.last attempts ?_ (by simp)⟩
        rintro identifier ⟨⟩
        exact ⟨rfl, rfl⟩

structure Snapshot (mint : Mint σ τ) (registered : List Constraint) (label : String)
    (given : List Constraint) (applyRegistered : Bool) : Prop where
  /-- It asks those, in their order and before its own. -/
  rounds : ∃ rounds, mint.Rounds (mint.deedsOfRequest (.select label given applyRegistered))
    ((if applyRegistered then numbered .registered registered else []) ++ numbered .given given)
    mint.attemptLimit (mint.select label given applyRegistered).1 rounds
  /-- It comes to the same if nobody registers anything while it runs. -/
  silent : ∀ mutes, mutes = registered.map Constraint.mute →
    (mint.withRegistered mutes).select label (given.map Constraint.mute) applyRegistered =
      ((mint.select label given applyRegistered).1,
        (mint.select label given applyRegistered).2.withRegistered mutes)
  /-- It comes to the same if a constraint makes it, inside another call. -/
  nested : ∀ next, inquire (.selecting label ((if applyRegistered then registered else []) ++ given)
      next mint.attemptLimit) mint.unasked =
    match mint.select label given applyRegistered with
    | (.error fault, after) => (.error fault, after.unasked)
    | (.ok result, after) => inquire (next result) after.unasked

theorem snapshot (mint : Mint σ τ) (label : String) (given : List Constraint)
    (applyRegistered : Bool) : mint.Snapshot mint.registered label given applyRegistered where
  rounds := rounds_attempt label _ mint.attemptLimit mint
  silent mutes same := mint.select_mute label given applyRegistered mutes same
  nested next := by
    rw [← constraints_members]
    exact inquire_selecting label _ next mint.attemptLimit mint

/-- At every moment of a run, the constraints are those that were there before it and those
registered since, in order. -/
structure Accumulates (mint : Mint σ τ) (requests : List Request) : Prop where
  performed : mint.performAll (mint.deeds requests) = (mint.run requests).2
  always : ∀ early late, mint.deeds requests = early ++ late →
    (mint.performAll early).registered = mint.registered ++ registrations early
  grows : ∀ early between late, mint.deeds requests = early ++ between ++ late →
    (mint.performAll early).registered <+: (mint.performAll (early ++ between)).registered
  calls : ∀ early late, mint.deeds requests = early ++ late →
    ∀ label given applyRegistered, (mint.performAll early).Snapshot
      (mint.registered ++ registrations early) label given applyRegistered

theorem run_registers (constraints : List Constraint) : ∀ mint : Mint σ τ,
    mint.run (constraints.map fun constraint => .register [constraint]) =
      (constraints.map fun _ => .ok .done, mint.registerAll constraints) := by
  induction constraints with
  | nil =>
    intro mint
    rfl
  | cons constraint constraints rest =>
    intro mint
    rw [List.map_cons, run, respond]
    dsimp only
    rw [rest]
    rfl

/-- Registered constraints are never taken away or moved, and every call goes by those that it finds;
several that are registered at once are registered one by one. -/
theorem constraints_accumulate (mint : Mint σ τ) (requests : List Request) :
    mint.Accumulates requests ∧ ∀ constraints,
      mint.run (constraints.map fun constraint => .register [constraint]) =
        (constraints.map fun _ => .ok .done, (mint.respond (.register constraints)).2) := by
  refine ⟨⟨mint.performAll_deeds requests, ?_, ?_, ?_⟩, fun constraints => run_registers constraints mint⟩
  · intro early late _
    exact registered_performAll early mint
  · intro early between late _
    rw [registered_performAll, registered_performAll, registrations_append, ← List.append_assoc]
    exact List.prefix_append _ _
  · intro early late _ label given applyRegistered
    rw [← registered_performAll]
    exact snapshot _ label given applyRegistered

end Mint
end Mintmark
