import Mintmark.Proofs.Mint.Issue
import Mintmark.Proofs.Mint.Lockstep

/-!
Inquiries as small programs. A constraint that makes a call of its own goes about its candidate as an
inquiry does, and what an inquiry registers changes nothing for the call that it is part of.
-/
namespace Mintmark

namespace Inquiry

def mute : Inquiry → Inquiry
  | .answer accepted => .answer accepted
  | .draw label next => .draw label fun drawn => (next drawn).mute
  | .register _ next => next.mute

def andThen (next : Bool → Inquiry) : Inquiry → Inquiry
  | .answer accepted => next accepted
  | .draw label rest => .draw label fun drawn => andThen next (rest drawn)
  | .register constraint rest => .register constraint (andThen next rest)

def asking (candidate : Identifier) (next : Bool → Inquiry) : List Constraint → Inquiry
  | [] => next true
  | constraint :: constraints =>
    andThen (fun accepted => if accepted then asking candidate next constraints else next false)
      (constraint candidate)

/-- Makes a call with these constraints, and goes on with what it returns. -/
def selecting (label : String) (constraints : List Constraint)
    (next : Except MintError (Option Identifier) → Inquiry) : Nat → Inquiry
  | 0 => next (.ok none)
  | attempts + 1 => .draw label fun
    | .error error => next (.error error)
    | .ok candidate =>
      asking candidate (fun accepted =>
        if accepted then next (.ok (some candidate))
        else selecting label constraints next attempts) constraints

end Inquiry

def Constraint.mute (constraint : Constraint) : Constraint := fun candidate => (constraint candidate).mute

namespace Mint
variable {σ τ : Type}

def withRegistered (mint : Mint σ τ) (registered : List Constraint) : Mint σ τ :=
  { mint with registered }

def unasked (mint : Mint σ τ) : Mint σ τ :=
  { mint with journal := mint.journal.filter (· matches .minted _) }

def muted (members : List (Member × Constraint)) : List (Member × Constraint) :=
  members.map fun member => (member.1, member.2.mute)

theorem muted_numbered (member : Nat → Member) (constraints : List Constraint) :
    muted (numbered member constraints) = numbered member (constraints.map Constraint.mute) := by
  simp only [muted, numbered, List.zipIdx_map, List.map_map, Function.comp_def, Prod.map]
  rfl

theorem constraints_members (mint : Mint σ τ) (given : List Constraint) (applyRegistered : Bool) :
    (mint.members given applyRegistered).map Prod.snd =
      (if applyRegistered then mint.registered else []) ++ given := by
  have constraints (member : Nat → Member) (constraints : List Constraint) :
      (numbered member constraints).map Prod.snd = constraints := by
    rw [numbered, List.map_map]
    exact List.zipIdx_map_fst 0 constraints
  rw [members, List.map_append, constraints]
  cases applyRegistered with
  | false => rfl
  | true => exact congrArg (· ++ given) (constraints .registered mint.registered)

variable [Sequencer σ] [Clock τ]

theorem issue_withRegistered (mint : Mint σ τ) (registered : List Constraint) (label : String) :
    (mint.withRegistered registered).issue label =
      ((mint.issue label).1, (mint.issue label).2.withRegistered registered) := by
  obtain ⟨source, events, -, same⟩ := mint.issue_local label
  have own := congrArg Prod.snd (same mint.registered mint.attemptLimit mint.journal)
  rw [own]
  exact same registered mint.attemptLimit mint.journal

theorem issue_unasked (mint : Mint σ τ) (label : String) :
    mint.unasked.issue label = ((mint.issue label).1, (mint.issue label).2.unasked) := by
  obtain ⟨source, events, minted, same⟩ := mint.issue_local label
  have own := congrArg Prod.snd (same mint.registered mint.attemptLimit mint.journal)
  have kept : events.filter (· matches .minted _) = events := by
    apply List.filter_eq_self.2
    intro event member
    obtain ⟨identifier, rfl⟩ := minted event member
    rfl
  rw [own, unasked, unasked, List.filter_append, kept]
  exact same mint.registered mint.attemptLimit _

theorem inquire_mute (registered : List Constraint) (inquiry : Inquiry) : ∀ mint : Mint σ τ,
    inquire inquiry.mute (mint.withRegistered registered) =
      ((inquire inquiry mint).1, (inquire inquiry mint).2.withRegistered registered) := by
  induction inquiry with
  | answer accepted =>
    intro mint
    rfl
  | draw label next rest =>
    intro mint
    rw [Inquiry.mute, inquire, inquire, issue_withRegistered]
    rcases mint.issue label with ⟨fault | result, after⟩
    · rfl
    · exact rest result after
  | register constraint next _ rest =>
    intro mint
    exact rest (mint.register constraint)

theorem simulation_mute (registered : List Constraint) :
    Simulation (fun mint other : Mint σ τ => other = mint.withRegistered registered)
      (fun _ mint other => other = mint.withRegistered registered)
      (fun member other => other = (member.1, member.2.mute)) where
  issue := by
    rintro mint _ rfl label
    exact lockstep_image_iff.2 (mint.issue_withRegistered registered label)
  ask := by
    rintro mint _ rfl candidate member _ rfl
    exact lockstep_image_iff.2
      (inquire_mute registered (member.2 candidate) (mint.record (.asked member.1 candidate)))

theorem forall₂_muted (members : List (Member × Constraint)) :
    List.Forall₂ (fun member other => other = (member.1, member.2.mute)) members (muted members) :=
  List.forall₂_map_right_iff.2 (List.forall₂_same.2 fun _ _ => rfl)

/-- A call comes to the same if nothing at all is registered while it runs. -/
theorem select_mute (mint : Mint σ τ) (label : String) (given : List Constraint)
    (applyRegistered : Bool) (silent : List Constraint)
    (same : silent = mint.registered.map Constraint.mute) :
    (mint.withRegistered silent).select label (given.map Constraint.mute) applyRegistered =
      ((mint.select label given applyRegistered).1,
        (mint.select label given applyRegistered).2.withRegistered silent) := by
  have members : (mint.withRegistered silent).members (given.map Constraint.mute) applyRegistered =
      muted (mint.members given applyRegistered) := by
    subst same
    rw [Mint.members, Mint.members, muted, List.map_append, ← muted, ← muted, muted_numbered]
    cases applyRegistered with
    | false => rfl
    | true => exact congrArg (· ++ _) (muted_numbered .registered mint.registered).symm
  rw [select, members]
  exact lockstep_image_iff.1
    ((simulation_mute silent).attempt label (forall₂_muted _) mint.attemptLimit rfl)

theorem inquire_andThen (next : Bool → Inquiry) (first : Inquiry) : ∀ mint : Mint σ τ,
    inquire (first.andThen next) mint =
      match inquire first mint with
      | (.error fault, after) => (.error fault, after)
      | (.ok accepted, after) => inquire (next accepted) after := by
  induction first with
  | answer accepted =>
    intro mint
    rfl
  | draw label rest later =>
    intro mint
    rw [Inquiry.andThen, inquire, inquire]
    rcases mint.issue label with ⟨fault | result, after⟩
    · rfl
    · exact later result after
  | register constraint rest _ later =>
    intro mint
    exact later (mint.register constraint)

theorem inquire_unasked (mint : Mint σ τ) (inquiry : Inquiry) :
    inquire inquiry mint.unasked = ((inquire inquiry mint).1, (inquire inquiry mint).2.unasked) := by
  apply lockstep_image_iff.1
  refine lockstep_inquire ?_ ?_ inquiry rfl
  · rintro mint _ rfl label
    exact lockstep_image_iff.2 (mint.issue_unasked label)
  · rintro mint _ rfl constraint
    rfl

theorem ask_unasked (mint : Mint σ τ) (candidate : Identifier) (member : Member × Constraint) :
    inquire (member.2 candidate) mint.unasked =
      ((mint.ask candidate member).1, (mint.ask candidate member).2.unasked) := by
  have same : mint.unasked = (mint.record (.asked member.1 candidate)).unasked := rfl
  rw [same]
  exact inquire_unasked _ _

theorem inquire_asking (candidate : Identifier) (next : Bool → Inquiry)
    (members : List (Member × Constraint)) : ∀ mint : Mint σ τ,
    inquire (.asking candidate next (members.map Prod.snd)) mint.unasked =
      match acceptedByAll candidate members mint with
      | (.error fault, after) => (.error fault, after.unasked)
      | (.ok accepted, after) => inquire (next accepted) after.unasked := by
  induction members with
  | nil =>
    intro mint
    rfl
  | cons member members rest =>
    intro mint
    rw [List.map_cons, Inquiry.asking, inquire_andThen, ask_unasked, acceptedByAll]
    rcases mint.ask candidate member with ⟨fault | _ | _, after⟩
    · rfl
    · rfl
    · exact rest after

/-- A call made by a constraint is part of its inquiry: what it draws, registers and returns is the
same. -/
theorem inquire_selecting (label : String) (members : List (Member × Constraint))
    (next : Except MintError (Option Identifier) → Inquiry) (attempts : Nat) : ∀ mint : Mint σ τ,
    inquire (.selecting label (members.map Prod.snd) next attempts) mint.unasked =
      match attempt label members attempts mint with
      | (.error fault, after) => (.error fault, after.unasked)
      | (.ok result, after) => inquire (next result) after.unasked := by
  induction attempts with
  | zero =>
    intro mint
    rfl
  | succ attempts rest =>
    intro mint
    rw [Inquiry.selecting, inquire, issue_unasked, attempt]
    rcases mint.issue label with ⟨fault | error | candidate, drawn⟩
    · rfl
    · rfl
    · dsimp only
      rw [inquire_asking]
      rcases acceptedByAll candidate members drawn with ⟨fault | _ | _, after⟩
      · rfl
      · exact rest after
      · rfl

end Mint
end Mintmark
