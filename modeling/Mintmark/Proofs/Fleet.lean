import Mathlib.Logic.Function.Basic
import Mintmark.Proofs.Mint.Receipt
import Mintmark.Proofs.Mint.Turn

/-!
Fleets: mints that draw from several sources, some of them from the same one. However their acts are
mixed, no text comes up twice, as long as mints with different sources have different nodes.
-/
namespace Mintmark

structure Desk where
  node : NodeCell := {}
  registered : List Constraint := []
  attemptLimit : Nat := defaultAttemptLimit
  journal : List Event := []

def Desk.over {σ τ : Type} (desk : Desk) (source : Source σ τ) : Mint σ τ :=
  { source, node := desk.node, registered := desk.registered, attemptLimit := desk.attemptLimit,
    journal := desk.journal }

def Mint.desk {σ τ : Type} (mint : Mint σ τ) : Desk :=
  { node := mint.node, registered := mint.registered, attemptLimit := mint.attemptLimit,
    journal := mint.journal }

/-- Mints and sources by their names. Each mint draws from one source, and several may draw from the
same. -/
structure Fleet {ι κ : Type} (draws : κ → ι) (σ : ι → Type) (τ : Type) where
  sources : ∀ i, Source (σ i) τ
  desks : κ → Desk

namespace Fleet
variable {ι κ : Type} {draws : κ → ι} {σ : ι → Type} {τ : Type}

def mint (fleet : Fleet draws σ τ) (k : κ) : Mint (σ (draws k)) τ :=
  (fleet.desks k).over (fleet.sources (draws k))

def nodeOf (fleet : Fleet draws σ τ) (k : κ) : Option Node := (fleet.desks k).node.held

def minted (fleet : Fleet draws σ τ) (k : κ) : List Identifier := (fleet.mint k).minted

/-- The identifier stands at this place among those that the mint issued. -/
def IssuedAt (fleet : Fleet draws σ τ) (k : κ) (place : Nat) (identifier : Identifier) : Prop :=
  (fleet.minted k)[place]? = some identifier

/-- Any two mints draw from one source, or their nodes differ if both have one. -/
def Apart (fleet : Fleet draws σ τ) : Prop :=
  ∀ k l, draws k = draws l ∨ fleet.nodeOf k = none ∨ fleet.nodeOf k ≠ fleet.nodeOf l

/-- A text is issued by one mint only, and at one place only. -/
def TextsDistinct (fleet : Fleet draws σ τ) : Prop :=
  ∀ k l place other first second, fleet.IssuedAt k place first → fleet.IssuedAt l other second →
    first.text = second.text → k = l ∧ place = other

theorem TextsDistinct.nodup {fleet : Fleet draws σ τ} (distinct : fleet.TextsDistinct) (k : κ) :
    ((fleet.minted k).map Identifier.text).Nodup := by
  rw [List.Nodup, List.pairwise_map, List.pairwise_iff_getElem]
  intro place other inside otherInside before same
  obtain ⟨-, rfl⟩ := distinct k k place other _ _ (List.getElem?_eq_getElem inside)
    (List.getElem?_eq_getElem otherInside) same
  exact Nat.lt_irrefl place before

/-- Of what was handed out under the names of mints, what one of them handed out. -/
def handedBy [DecidableEq κ] (k : κ) (handed : List (κ × Identifier)) : List Identifier :=
  (handed.filter (·.1 = k)).map Prod.snd

theorem handedBy_append [DecidableEq κ] (k : κ) (first second : List (κ × Identifier)) :
    handedBy k (first ++ second) = handedBy k first ++ handedBy k second := by
  rw [handedBy, List.filter_append, List.map_append]
  rfl

theorem mem_handedBy [DecidableEq κ] {k : κ} {handed : List (κ × Identifier)}
    {identifier : Identifier} : identifier ∈ handedBy k handed ↔ (k, identifier) ∈ handed := by
  simp [handedBy]

theorem TextsDistinct.nodup_texts [DecidableEq κ] {fleet : Fleet draws σ τ}
    (distinct : fleet.TextsDistinct) {handed : List (κ × Identifier)}
    (kept : ∀ k, (handedBy k handed).Sublist (fleet.minted k)) :
    (handed.map (·.2.text)).Nodup := by
  induction handed with
  | nil => exact List.nodup_nil
  | cons first rest ih =>
    obtain ⟨k, identifier⟩ := first
    rw [List.map_cons, List.nodup_cons]
    constructor
    · intro again
      obtain ⟨⟨l, other⟩, member, same⟩ := List.mem_map.1 again
      by_cases own : l = k
      · subst own
        have first : handedBy l ((l, identifier) :: rest) = identifier :: handedBy l rest := by
          simp [handedBy]
        have apart := ((kept l).map Identifier.text).nodup (distinct.nodup l)
        rw [first, List.map_cons, List.nodup_cons] at apart
        exact apart.1 (List.mem_map.2 ⟨other, mem_handedBy.2 member, same⟩)
      · have issued := (kept k).subset (mem_handedBy.2 List.mem_cons_self)
        have otherIssued := (kept l).subset (mem_handedBy.2 (List.mem_cons_of_mem _ member))
        obtain ⟨place, stands⟩ := List.mem_iff_getElem?.1 issued
        obtain ⟨otherPlace, otherStands⟩ := List.mem_iff_getElem?.1 otherIssued
        exact own (distinct l k otherPlace place other identifier otherStands stands same).1
    · apply ih
      intro l
      exact (((List.sublist_cons_self _ rest).filter _).map _).trans (kept l)

section Sound
variable [∀ i, Sequencer (σ i)] [∀ i, Holding (σ i)]

def held (fleet : Fleet draws σ τ) (i : ι) : Stamp := Settling.held (fleet.sources i).sequencer

structure IssuedBy (fleet : Fleet draws σ τ) (k : κ) (identifier : Identifier) : Prop where
  canonical : identifier.Canonical
  node : fleet.nodeOf k = some identifier.node
  reached : identifier.stamp ≤ fleet.held (draws k)

/-- Mints of one source share out its stamps. -/
structure Sound (fleet : Fleet draws σ τ) : Prop where
  issued : ∀ k place identifier, fleet.IssuedAt k place identifier → fleet.IssuedBy k identifier
  stamps : ∀ k l place other first second, draws k = draws l → fleet.IssuedAt k place first →
    fleet.IssuedAt l other second → first.stamp = second.stamp → k = l ∧ place = other

theorem sound_of_unissued {fleet : Fleet draws σ τ} (unissued : ∀ k, fleet.minted k = []) :
    Sound fleet where
  issued k place identifier issued := by simp [IssuedAt, unissued] at issued
  stamps k l place other first second shared issued := by simp [IssuedAt, unissued] at issued

theorem Sound.lt_of_shared {fleet : Fleet draws σ τ} (sound : Sound fleet) {k l : κ}
    (same : draws l = draws k) {stamp : Stamp} (above : fleet.held (draws k) < stamp) {place : Nat}
    {identifier : Identifier} (issued : fleet.IssuedAt l place identifier) :
    identifier.stamp < stamp := by
  have reached := (sound.issued l place identifier issued).reached
  rw [same] at reached
  exact Stamp.lt_of_le_of_lt reached above

theorem Sound.textsDistinct {fleet : Fleet draws σ τ} (sound : Sound fleet) (apart : fleet.Apart) :
    fleet.TextsDistinct := by
  intro k l place other first second firstIssued secondIssued texts
  have firstBy := sound.issued k place first firstIssued
  have secondBy := sound.issued l other second secondIssued
  have same : first = second := firstBy.canonical.eq_of_text secondBy.canonical texts
  subst same
  rcases apart k l with shared | free | different
  · exact sound.stamps k l place other first first shared firstIssued secondIssued rfl
  · rw [firstBy.node] at free
    cases free
  · rw [firstBy.node, secondBy.node] at different
    exact absurd rfl different

end Sound

variable [DecidableEq ι] [DecidableEq κ]

def put (fleet : Fleet draws σ τ) (k : κ) (mint : Mint (σ (draws k)) τ) : Fleet draws σ τ where
  sources := Function.update fleet.sources (draws k) mint.source
  desks := Function.update fleet.desks k mint.desk

@[simp] theorem mint_put_self (fleet : Fleet draws σ τ) (k : κ) (mint : Mint (σ (draws k)) τ) :
    (fleet.put k mint).mint k = mint := by
  simp only [Fleet.mint, put, Function.update_self]
  rfl

@[simp] theorem put_put (fleet : Fleet draws σ τ) (k : κ) (first second : Mint (σ (draws k)) τ) :
    (fleet.put k first).put k second = fleet.put k second := by
  simp only [put, Function.update_idem]

@[simp] theorem put_mint (fleet : Fleet draws σ τ) (k : κ) :
    fleet.put k (fleet.mint k) = fleet := by
  have source : (fleet.mint k).source = fleet.sources (draws k) := rfl
  have desk : (fleet.mint k).desk = fleet.desks k := rfl
  rw [put, source, desk, Function.update_eq_self, Function.update_eq_self]

@[simp] theorem nodeOf_put_self (fleet : Fleet draws σ τ) (k : κ) (mint : Mint (σ (draws k)) τ) :
    (fleet.put k mint).nodeOf k = mint.node.held := by
  simp only [nodeOf, put, Function.update_self]
  rfl

@[simp] theorem minted_put_self (fleet : Fleet draws σ τ) (k : κ) (mint : Mint (σ (draws k)) τ) :
    (fleet.put k mint).minted k = mint.minted := by
  rw [minted, mint_put_self]

theorem desks_put_of_ne (fleet : Fleet draws σ τ) {k l : κ} (other : l ≠ k)
    (mint : Mint (σ (draws k)) τ) : (fleet.put k mint).desks l = fleet.desks l :=
  Function.update_of_ne other _ _

theorem nodeOf_put_of_ne (fleet : Fleet draws σ τ) {k l : κ} (other : l ≠ k)
    (mint : Mint (σ (draws k)) τ) : (fleet.put k mint).nodeOf l = fleet.nodeOf l := by
  rw [nodeOf, desks_put_of_ne fleet other]
  rfl

theorem minted_put_of_ne (fleet : Fleet draws σ τ) {k l : κ} (other : l ≠ k)
    (mint : Mint (σ (draws k)) τ) : (fleet.put k mint).minted l = fleet.minted l := by
  rw [minted, Fleet.mint, desks_put_of_ne fleet other]
  rfl

section Advances
variable [∀ i, Sequencer (σ i)] [∀ i, Holding (σ i)]

theorem held_put_self (fleet : Fleet draws σ τ) (k : κ) (mint : Mint (σ (draws k)) τ) :
    (fleet.put k mint).held (draws k) = Settling.held mint.source.sequencer := by
  have moved : (fleet.put k mint).sources (draws k) = mint.source := Function.update_self ..
  rw [held, moved]

theorem held_le_put {fleet : Fleet draws σ τ} {k : κ} {mint : Mint (σ (draws k)) τ}
    (le : fleet.held (draws k) ≤ Settling.held mint.source.sequencer) (i : ι) :
    fleet.held i ≤ (fleet.put k mint).held i := by
  by_cases same : i = draws k
  · subst same
    rw [held_put_self]
    exact le
  · have untouched : (fleet.put k mint).sources i = fleet.sources i :=
      Function.update_of_ne same _ _
    rw [held, held, untouched]
    exact Stamp.le_refl _

theorem issuedAt_put {fleet : Fleet draws σ τ} {k l : κ} {mint : Mint (σ (draws k)) τ} {place : Nat}
    {identifier : Identifier} (advances : Mint.Advances (fleet.mint k) mint)
    (issued : (fleet.put k mint).IssuedAt l place identifier) :
    fleet.IssuedAt l place identifier ∨
      l = k ∧ place = (fleet.minted k).length ∧ (fleet.put k mint).IssuedBy k identifier ∧
        fleet.held (draws k) < identifier.stamp := by
  rw [IssuedAt] at issued
  by_cases own : l = k
  · subst own
    have before : (fleet.mint l).minted = fleet.minted l := rfl
    rw [minted_put_self] at issued
    rcases advances.minted with kept | ⟨added, grown, canonical, node, above, holds⟩
    · rw [kept] at issued
      exact .inl issued
    · rw [grown, before, List.getElem?_append, List.getElem?_singleton] at issued
      split at issued
      · exact .inl issued
      · split at issued
        · rename_i beyond last
          cases issued
          have placed : place = (fleet.minted l).length := by omega
          refine .inr ⟨rfl, placed, ⟨canonical, ?_, ?_⟩, above⟩
          · rw [nodeOf_put_self, node]
          · rw [held_put_self, holds]
            exact Stamp.le_refl _
        · cases issued
  · rw [minted_put_of_ne fleet own] at issued
    exact .inl issued

theorem IssuedBy.put {fleet : Fleet draws σ τ} {k l : κ} {mint : Mint (σ (draws k)) τ}
    {identifier : Identifier} (issued : fleet.IssuedBy l identifier)
    (advances : Mint.Advances (fleet.mint k) mint) : (fleet.put k mint).IssuedBy l identifier where
  canonical := issued.canonical
  node := by
    by_cases own : l = k
    · subst own
      rw [nodeOf_put_self]
      exact advances.node _ issued.node
    · rw [nodeOf_put_of_ne fleet own]
      exact issued.node
  reached := Stamp.le_trans issued.reached (held_le_put advances.le _)

theorem Sound.put {fleet : Fleet draws σ τ} (sound : Sound fleet) {k : κ}
    {mint : Mint (σ (draws k)) τ} (advances : Mint.Advances (fleet.mint k) mint) :
    Sound (fleet.put k mint) where
  issued l place identifier issued := by
    rcases issuedAt_put advances issued with before | ⟨rfl, -, added, -⟩
    · exact (sound.issued l place identifier before).put advances
    · exact added
  stamps l m place other first second shared firstIssued secondIssued same := by
    -- Of two identifiers of one source, a new one has the later stamp, and only one can be new.
    rcases issuedAt_put advances firstIssued with firstBefore | ⟨rfl, firstPlace, -, firstAbove⟩
    · rcases issuedAt_put advances secondIssued with secondBefore | ⟨rfl, -, -, secondAbove⟩
      · exact sound.stamps l m place other first second shared firstBefore secondBefore same
      · have below := sound.lt_of_shared shared secondAbove firstBefore
        rw [same] at below
        exact absurd below (Stamp.lt_irrefl _)
    · rcases issuedAt_put advances secondIssued with secondBefore | ⟨rfl, secondPlace, -, -⟩
      · have below := sound.lt_of_shared shared.symm firstAbove secondBefore
        rw [same] at below
        exact absurd below (Stamp.lt_irrefl _)
      · exact ⟨rfl, firstPlace.trans secondPlace.symm⟩

end Advances

section Runs
variable [∀ i, Sequencer (σ i)] [Clock τ]

def step (fleet : Fleet draws σ τ) (move : (k : κ) × Act (σ (draws k))) : Fleet draws σ τ :=
  fleet.put move.1 ((fleet.mint move.1).act move.2)

def run (fleet : Fleet draws σ τ) (moves : List ((k : κ) × Act (σ (draws k)))) :
    Fleet draws σ τ :=
  moves.foldl step fleet

def serve (fleet : Fleet draws σ τ) (call : κ × Request) : Fleet draws σ τ :=
  fleet.put call.1 ((fleet.mint call.1).respond call.2).2

def serveAll (fleet : Fleet draws σ τ) (calls : List (κ × Request)) : Fleet draws σ τ :=
  calls.foldl serve fleet

/-- What callers receive turn by turn, each with the name of the mint that hands it out. -/
def yielded (fleet : Fleet draws σ τ) : List ((k : κ) × Act (σ (draws k))) → List (κ × Identifier)
  | [] => []
  | move :: moves =>
    ((fleet.mint move.1).yields move.2).toList.map (move.1, ·) ++ (fleet.step move).yielded moves

theorem yielded_cons (fleet : Fleet draws σ τ) (move : (k : κ) × Act (σ (draws k)))
    (moves : List ((k : κ) × Act (σ (draws k)))) :
    fleet.yielded (move :: moves) = fleet.yielded [move] ++ (fleet.step move).yielded moves := by
  simp [yielded]

theorem minted_step (fleet : Fleet draws σ τ) (k : κ) (move : (k : κ) × Act (σ (draws k))) :
    (fleet.step move).minted k = fleet.minted k ++ handedBy k (fleet.yielded [move]) := by
  obtain ⟨l, act⟩ := move
  by_cases own : l = k
  · subst own
    have added : ((fleet.mint l).act act).minted =
        fleet.minted l ++ ((fleet.mint l).yields act).toList := (fleet.mint l).minted_act act
    simpa [step, yielded, handedBy, List.filter_map, Function.comp_def] using added
  · have kept := fleet.minted_put_of_ne (Ne.symm own) ((fleet.mint l).act act)
    simpa [step, yielded, handedBy, List.filter_map, Function.comp_def, own] using kept

theorem minted_run (k : κ) (moves : List ((k : κ) × Act (σ (draws k)))) :
    ∀ fleet : Fleet draws σ τ,
      (fleet.run moves).minted k = fleet.minted k ++ handedBy k (fleet.yielded moves) := by
  induction moves with
  | nil => exact fun fleet => (List.append_nil _).symm
  | cons move moves rest =>
    intro fleet
    have steps : fleet.run (move :: moves) = (fleet.step move).run moves := rfl
    rw [steps, rest, minted_step, fleet.yielded_cons move moves, handedBy_append, List.append_assoc]

/-- What callers receive, each with the name of the mint that hands it out. -/
def handed (fleet : Fleet draws σ τ) : List (κ × Request) → List (κ × Identifier)
  | [] => []
  | call :: calls =>
    (received ((fleet.mint call.1).respond call.2).1).map (call.1, ·) ++ (fleet.serve call).handed calls

theorem handed_cons (fleet : Fleet draws σ τ) (call : κ × Request) (calls : List (κ × Request)) :
    fleet.handed (call :: calls) = fleet.handed [call] ++ (fleet.serve call).handed calls := by
  simp [handed]

theorem gains_serve (fleet : Fleet draws σ τ) (k : κ) (call : κ × Request) :
    Mint.Gains (fleet.mint k) ((fleet.serve call).mint k) (handedBy k (fleet.handed [call])) := by
  obtain ⟨l, request⟩ := call
  by_cases own : l = k
  · subst own
    have gains := (fleet.mint l).gains_respond request
    simpa [serve, handed, handedBy, List.filter_map, Function.comp_def] using gains
  · have kept := fleet.minted_put_of_ne (Ne.symm own) ((fleet.mint l).respond request).2
    simpa [serve, handed, handedBy, List.filter_map, Function.comp_def, own] using Mint.gains_nil kept

theorem gains_serveAll (k : κ) (calls : List (κ × Request)) : ∀ fleet : Fleet draws σ τ,
    Mint.Gains (fleet.mint k) ((fleet.serveAll calls).mint k) (handedBy k (fleet.handed calls)) := by
  induction calls with
  | nil => exact fun fleet => Mint.gains_nil rfl
  | cons call calls rest =>
    intro fleet
    rw [handed_cons, handedBy_append]
    exact (fleet.gains_serve k call).trans (rest (fleet.serve call))

theorem run_append (fleet : Fleet draws σ τ) (first second : List ((k : κ) × Act (σ (draws k)))) :
    fleet.run (first ++ second) = (fleet.run first).run second := List.foldl_append

theorem put_actAll (k : κ) (acts : List (Act (σ (draws k)))) : ∀ fleet : Fleet draws σ τ,
    fleet.put k ((fleet.mint k).actAll acts) = fleet.run (acts.map (⟨k, ·⟩)) := by
  induction acts with
  | nil => exact fun fleet => fleet.put_mint k
  | cons act acts rest =>
    intro fleet
    have steps : fleet.run ((act :: acts).map (⟨k, ·⟩)) =
        (fleet.put k ((fleet.mint k).act act)).run (acts.map (⟨k, ·⟩)) := rfl
    rw [steps, ← rest, mint_put_self, put_put]
    rfl

theorem exists_run_eq_serveAll (calls : List (κ × Request)) : ∀ fleet : Fleet draws σ τ,
    ∃ moves, fleet.serveAll calls = fleet.run moves := by
  induction calls with
  | nil => exact fun fleet => ⟨[], rfl⟩
  | cons call calls rest =>
    intro fleet
    obtain ⟨acts, responds⟩ := (fleet.mint call.1).exists_respond_eq call.2
    obtain ⟨moves, serves⟩ := rest (fleet.serve call)
    have serving : fleet.serveAll (call :: calls) = (fleet.serve call).serveAll calls := rfl
    refine ⟨acts.map (⟨call.1, ·⟩) ++ moves, ?_⟩
    rw [serving, serves, serve, responds, put_actAll, run_append]

variable [∀ i, Holding (σ i)]

theorem Sound.run (moves : List ((k : κ) × Act (σ (draws k)))) : ∀ {fleet : Fleet draws σ τ},
    Sound fleet → Sound (fleet.run moves) := by
  induction moves with
  | nil => exact id
  | cons move moves rest =>
    intro fleet sound
    have advances := Mint.advances_act (fleet.mint move.1) move.2
    exact rest (sound.put advances)

/-- Mints that share a source or differ in their nodes never issue a text twice, whatever each is
asked for under whatever labels, at whatever point of its waits the others come in, and whatever
the clocks read. What a mint issued is what its turns hand out, and has in order what its replies do,
so no caller receives a text that was received before. -/
theorem texts_distinct (fleet : Fleet draws σ τ) (unissued : ∀ k, fleet.minted k = []) :
    (∀ moves, (fleet.run moves).Apart → (fleet.run moves).TextsDistinct ∧
        ((fleet.yielded moves).map (·.2.text)).Nodup) ∧
      (∀ calls, (fleet.serveAll calls).Apart → (fleet.serveAll calls).TextsDistinct ∧
        ((fleet.handed calls).map (·.2.text)).Nodup) ∧
      (∀ moves k, handedBy k (fleet.yielded moves) = (fleet.run moves).minted k) ∧
      ∀ calls k, (handedBy k (fleet.handed calls)).Sublist ((fleet.serveAll calls).minted k) := by
  have sound := sound_of_unissued unissued
  have yields (moves : List ((k : κ) × Act (σ (draws k)))) (k : κ) :
      handedBy k (fleet.yielded moves) = (fleet.run moves).minted k := by
    rw [minted_run, unissued, List.nil_append]
  have kept (calls : List (κ × Request)) (k : κ) :
      (handedBy k (fleet.handed calls)).Sublist ((fleet.serveAll calls).minted k) :=
    (gains_serveAll k calls fleet).of_unissued (unissued k)
  refine ⟨?_, ?_, yields, kept⟩
  · intro moves apart
    have distinct := (sound.run moves).textsDistinct apart
    refine ⟨distinct, distinct.nodup_texts fun k => ?_⟩
    rw [yields moves k]
  · intro calls apart
    obtain ⟨moves, same⟩ := exists_run_eq_serveAll calls fleet
    have distinct : (fleet.serveAll calls).TextsDistinct := by
      rw [same] at apart ⊢
      exact (sound.run moves).textsDistinct apart
    exact ⟨distinct, distinct.nodup_texts (kept calls)⟩

end Runs

/-- Two mints over one word, and a third over a word of its own. -/
def three : Fleet (fun k : Fin 3 => decide (k = 2)) (fun _ => WordSequencer) (List Moment) where
  sources _ := { sequencer := {}, clock := List.replicate 3 (.reading 1606298343064) }
  desks _ := {}

/-- The second mint loses the word to the first, and draws the next stamp after it. -/
def threeMoves : List ((_ : Fin 3) × Act WordSequencer) :=
  [⟨0, .assignNode 7⟩, ⟨1, .assignNode 7⟩, ⟨2, .assignNode 8⟩, ⟨0, .turn "A" {}⟩, ⟨1, .turn "A" {}⟩,
    ⟨1, .turn "A" (.ofStamp ⟨1606298343064, 0⟩)⟩, ⟨2, .turn "A" {}⟩]

def threeCalls : List (Fin 3 × Request) :=
  [(0, .assignNode 7), (1, .assignNode 7), (2, .assignNode 8), (0, .issue "A"), (1, .issue "A"),
    (2, .issue "A")]

theorem texts_distinct_three :
    (∀ k, three.minted k = []) ∧ (three.run threeMoves).Apart ∧
      ((three.run threeMoves).minted 1).map Identifier.text = ["A2011250959030640007001"] ∧
      (three.run threeMoves).TextsDistinct ∧ ((three.yielded threeMoves).map (·.2.text)).Nodup ∧
      (three.serveAll threeCalls).Apart ∧
      (three.handed threeCalls).map (·.2.text) = ["A2011250959030640007000", "A2011250959030640007001",
        "A2011250959030640008000"] ∧
      ((three.handed threeCalls).map (·.2.text)).Nodup := by
  have unissued : ∀ k, three.minted k = [] := fun _ => rfl
  have apart : (three.run threeMoves).Apart := by
    unfold Apart
    decide
  have nodes : ∀ k, (three.serveAll threeCalls).nodeOf k = some (.ofSeed (if k = 2 then 8 else 7))
    | 0 | 1 | 2 => by with_unfolding_all rfl
  have served : (three.serveAll threeCalls).Apart := by
    simp only [Apart, nodes]
    decide
  obtain ⟨moved, called, -⟩ := texts_distinct three unissued
  obtain ⟨distinct, different⟩ := moved threeMoves apart
  exact ⟨unissued, apart, by with_unfolding_all rfl, distinct, different, served,
    by with_unfolding_all rfl, (called threeCalls served).2⟩

end Fleet
end Mintmark
