import Mathlib.Data.List.Nodup
import Mintmark.Proofs.Mint.Issue
import Mintmark.Proofs.Mint.Past

/-!
Selection by constraints that look at the candidate alone. It is a search of bounded length for the
first identifier that all of them accept, among those that so many plain calls would issue.
-/
namespace Mintmark.Mint
variable {σ τ : Type}

abbrev Panel := List (Member × (Identifier → Bool))

namespace Panel

def members (panel : Panel) : List (Member × Constraint) :=
  panel.map fun (who, accepts) => (who, .ofPredicate accepts)

def accepts (panel : Panel) (candidate : Identifier) : Bool := panel.all fun seat => seat.2 candidate

/-- A member is asked about the candidates that all members before it accept. -/
def asks (who : Member) : Panel → Identifier → Bool
  | [], _ => false
  | (other, accepts) :: rest, candidate => other = who || (accepts candidate && asks who rest candidate)

def questions (candidate : Identifier) : Panel → List Event
  | [] => []
  | (who, accepts) :: rest =>
    .asked who candidate :: if accepts candidate then questions candidate rest else []

theorem asks_eq_false {who : Member} {panel : Panel} (absent : who ∉ panel.map Prod.fst)
    (candidate : Identifier) : panel.asks who candidate = false := by
  induction panel with
  | nil => rfl
  | cons seat panel rest =>
    rw [List.map_cons, List.mem_cons, not_or] at absent
    rw [asks, rest absent.2, Bool.and_false, Bool.or_false]
    exact decide_eq_false fun same => absent.1 same.symm

end Panel

def panelOf (registered given : List (Identifier → Bool)) : Panel :=
  (registered.zipIdx.map fun (accepts, index) => (.registered index, accepts)) ++
    given.zipIdx.map fun (accepts, index) => (.given index, accepts)

def seat (registered place : Nat) : Member :=
  if place < registered then .registered place else .given (place - registered)

theorem members_panelOf (registered given : List (Identifier → Bool)) :
    numbered .registered (registered.map .ofPredicate) ++ numbered .given (given.map .ofPredicate) =
      (panelOf registered given).members := by
  simp only [numbered, panelOf, Panel.members, List.zipIdx_map, List.map_append, List.map_map,
    Function.comp_def, Prod.map]
  rfl

theorem members_eq_panelOf {mint : Mint σ τ} {registered : List (Identifier → Bool)}
    (given : List (Identifier → Bool)) {applyRegistered : Bool}
    (applied : applyRegistered = true → mint.registered = registered.map .ofPredicate) :
    mint.members (given.map .ofPredicate) applyRegistered =
      (panelOf (if applyRegistered then registered else []) given).members := by
  rw [← members_panelOf, Mint.members]
  cases applyRegistered with
  | false => rfl
  | true =>
    rw [applied rfl]
    rfl

theorem predicates_panelOf (registered given : List (Identifier → Bool)) :
    (panelOf registered given).map Prod.snd = registered ++ given := by
  simp [panelOf, Function.comp_def]

theorem accepts_panelOf (registered given : List (Identifier → Bool)) (candidate : Identifier) :
    (panelOf registered given).accepts candidate = (registered ++ given).all (· candidate) := by
  rw [← predicates_panelOf, List.all_map]
  rfl

theorem seats_panelOf (registered given : List (Identifier → Bool)) :
    (panelOf registered given).map Prod.fst =
      (List.range registered.length).map .registered ++ (List.range given.length).map .given := by
  have places (predicates : List (Identifier → Bool)) (member : Nat → Member) :
      (predicates.zipIdx.map fun (accepts, index) => (member index, accepts)).map Prod.fst =
        (List.range predicates.length).map member := by
    rw [List.range_eq_range', ← List.zipIdx_map_snd, List.map_map, List.map_map]
    rfl
  rw [panelOf, List.map_append]
  exact congrArg₂ (· ++ ·) (places registered .registered) (places given .given)

theorem getElem?_panelOf {registered given : List (Identifier → Bool)} {place : Nat}
    (inside : place < (registered ++ given).length) :
    ((panelOf registered given).map Prod.fst)[place]? = some (seat registered.length place) := by
  rw [List.length_append] at inside
  rw [seats_panelOf, seat, List.getElem?_append, List.length_map, List.length_range]
  split
  · rename_i first
    simp [first]
  · rename_i later
    have second : place - registered.length < given.length := by omega
    simp [second]

theorem distinct_panelOf (registered given : List (Identifier → Bool)) :
    ((panelOf registered given).map Prod.fst).Nodup := by
  rw [seats_panelOf, List.nodup_append]
  refine ⟨List.Nodup.map ?_ List.nodup_range, List.Nodup.map ?_ List.nodup_range, ?_⟩
  · intro first second same
    cases same
    rfl
  · intro first second same
    cases same
    rfl
  · intro first registered second given same
    obtain ⟨index, -, rfl⟩ := List.mem_map.1 registered
    obtain ⟨other, -, rfl⟩ := List.mem_map.1 given
    cases same

theorem asks_getElem {panel : Panel} (distinct : (panel.map Prod.fst).Nodup) (candidate : Identifier) :
    ∀ {place : Nat} {who : Member}, (panel.map Prod.fst)[place]? = some who →
      panel.asks who candidate = ((panel.map Prod.snd).take place).all (· candidate) := by
  induction panel with
  | nil =>
    intro place who found
    cases found
  | cons first panel rest =>
    intro place who found
    obtain ⟨other, accepts⟩ := first
    rw [List.map_cons, List.nodup_cons] at distinct
    cases place with
    | zero =>
      cases found
      simp [Panel.asks]
    | succ place =>
      have later : (panel.map Prod.fst)[place]? = some who := found
      have different : other ≠ who := by
        rintro rfl
        exact distinct.1 (List.mem_of_getElem? later)
      simp [Panel.asks, different, rest distinct.2 later]

theorem askedOf_append (mint : Mint σ τ) (events journal : List Event) (who : Member) :
    ({ mint with journal := events ++ journal } : Mint σ τ).askedOf who =
      ({ mint with journal } : Mint σ τ).askedOf who ++
        ({ mint with journal := events } : Mint σ τ).askedOf who := by
  simp only [askedOf, List.reverse_append, List.filterMap_append]

theorem minted_questions (mint : Mint σ τ) (candidate : Identifier) (panel : Panel) :
    ({ mint with journal := (panel.questions candidate).reverse } : Mint σ τ).minted = [] := by
  induction panel with
  | nil => rfl
  | cons seat panel rest =>
    rw [minted, List.reverse_reverse] at rest ⊢
    rw [Panel.questions]
    split
    · exact rest
    · rfl

theorem askedOf_questions (mint : Mint σ τ) (candidate : Identifier) {panel : Panel}
    (distinct : (panel.map Prod.fst).Nodup) (who : Member) :
    ({ mint with journal := (panel.questions candidate).reverse } : Mint σ τ).askedOf who =
      if panel.asks who candidate then [candidate] else [] := by
  induction panel with
  | nil => rfl
  | cons seat panel rest =>
    obtain ⟨other, accepts⟩ := seat
    rw [List.map_cons, List.nodup_cons] at distinct
    rw [askedOf, List.reverse_reverse] at rest ⊢
    rw [Panel.questions, Panel.asks, List.filterMap_cons]
    by_cases same : other = who
    · subst same
      have later := rest distinct.2
      rw [Panel.asks_eq_false distinct.1] at later
      cases accepts candidate <;> simp [later]
    · cases accepts candidate <;> simp [same, rest distinct.2]

variable [Sequencer σ] [Clock τ]

theorem acceptedByAll_members (candidate : Identifier) (panel : Panel) : ∀ mint : Mint σ τ,
    acceptedByAll candidate panel.members mint =
      (.ok (panel.accepts candidate),
        { mint with journal := (panel.questions candidate).reverse ++ mint.journal }) := by
  induction panel with
  | nil =>
    intro mint
    rfl
  | cons seat panel rest =>
    intro mint
    obtain ⟨who, accepts⟩ := seat
    have asked : mint.ask candidate (who, .ofPredicate accepts) =
        (.ok (accepts candidate), mint.record (.asked who candidate)) := rfl
    have members : Panel.members ((who, accepts) :: panel) =
        (who, .ofPredicate accepts) :: Panel.members panel := rfl
    rw [members, acceptedByAll, asked]
    cases accepted : accepts candidate with
    | true =>
      dsimp only
      rw [rest]
      simp [Panel.accepts, Panel.questions, accepted, record]
    | false => simp [Panel.accepts, Panel.questions, accepted, record]

abbrev Issuing := Except ClockFault (Except MintError Identifier)

abbrev Selecting := Except ClockFault (Except MintError (Option Identifier))

def afterCalls (mint : Mint σ τ) (label : String) : Nat → Mint σ τ
  | 0 => mint
  | calls + 1 => (mint.issue label).2.afterCalls label calls

def outcome (mint : Mint σ τ) (label : String) (call : Nat) : Issuing :=
  ((mint.afterCalls label call).issue label).1

theorem afterCalls_succ (label : String) (calls : Nat) : ∀ mint : Mint σ τ,
    mint.afterCalls label (calls + 1) = ((mint.afterCalls label calls).issue label).2 := by
  induction calls with
  | zero =>
    intro mint
    rfl
  | succ calls rest =>
    intro mint
    exact rest (mint.issue label).2

theorem afterCalls_withPast (past : Past) (label : String) (calls : Nat) : ∀ mint : Mint σ τ,
    (mint.withPast past).afterCalls label calls = (mint.afterCalls label calls).withPast past := by
  induction calls with
  | zero =>
    intro mint
    rfl
  | succ calls rest =>
    intro mint
    rw [afterCalls, afterCalls, issue_withPast, rest]

theorem afterCalls_journal (mint : Mint σ τ) (label : String) (calls : Nat) : ∃ events, ∀ journal,
    ({ mint with journal } : Mint σ τ).afterCalls label calls =
      { mint.afterCalls label calls with journal := events ++ journal } := by
  have started (journal : List Event) : ({ mint with journal } : Mint σ τ).afterCalls label calls =
      (({ mint with journal := [] } : Mint σ τ).afterCalls label calls).withPast ⟨journal, []⟩ :=
    afterCalls_withPast ⟨journal, []⟩ label calls { mint with journal := [] }
  refine ⟨(({ mint with journal := [] } : Mint σ τ).afterCalls label calls).journal, ?_⟩
  intro journal
  have same := started mint.journal
  rw [started, same]
  rfl

theorem outcome_succ {mint drawn : Mint σ τ} {label : String} {result : Issuing}
    (issued : mint.issue label = (result, drawn)) :
    (fun call => mint.outcome label (call + 1)) = drawn.outcome label := by
  funext call
  rw [outcome, outcome, afterCalls, issued]

theorem outcome_journal (mint : Mint σ τ) (label : String) (journal : List Event) :
    ({ mint with journal } : Mint σ τ).outcome label = mint.outcome label := by
  have started (journal : List Event) (call : Nat) :
      ({ mint with journal } : Mint σ τ).outcome label call =
        ({ mint with journal := [] } : Mint σ τ).outcome label call := by
    have before := afterCalls_withPast ⟨journal, []⟩ label call { mint with journal := [] }
    have same := congrArg (fun reached => (reached.issue label).1) before
    rw [issue_withPast] at same
    exact same
  funext call
  rw [started journal, ← started mint.journal]

theorem issue_journal (mint : Mint σ τ) (label : String) :
    (mint.issue label).2.journal =
      (match (mint.issue label).1 with
        | .ok (.ok identifier) => [.minted identifier]
        | _ => []) ++ mint.journal := by
  have ends := issue_ends mint label
  generalize (mint.issue label).1 = result, (mint.issue label).2 = after at ends ⊢
  cases ends <;> rfl

/-- What the outcome of a call means to a search: its end, unless a candidate is rejected. -/
def verdict (accepts : Identifier → Bool) : Issuing → Option Selecting
  | .error cause => some (.error cause)
  | .ok (.error error) => some (.ok (.error error))
  | .ok (.ok candidate) => if accepts candidate then some (.ok (.ok (some candidate))) else none

/-- How a search through the outcomes of calls ends, and after how many of them. -/
inductive Search (outcome : Nat → Issuing) (accepts : Identifier → Bool) (limit : Nat) :
    Selecting → Nat → Prop
  | stopped {call : Nat} {result : Selecting} (inside : call < limit)
    (before : ∀ earlier < call, verdict accepts (outcome earlier) = none)
    (ends : verdict accepts (outcome call) = some result) :
    Search outcome accepts limit result (call + 1)
  | exhausted (all : ∀ call < limit, verdict accepts (outcome call) = none) :
    Search outcome accepts limit (.ok (.ok none)) limit

theorem Search.next {outcome : Nat → Issuing} {accepts : Identifier → Bool} {limit calls : Nat}
    {result : Selecting} (first : verdict accepts (outcome 0) = none)
    (search : Search (fun call => outcome (call + 1)) accepts limit result calls) :
    Search outcome accepts (limit + 1) result (calls + 1) := by
  have shifted {bound : Nat}
      (before : ∀ call < bound, verdict accepts (outcome (call + 1)) = none) :
      ∀ call < bound + 1, verdict accepts (outcome call) = none := by
    intro call inside
    cases call with
    | zero => exact first
    | succ call => exact before call (Nat.lt_of_succ_lt_succ inside)
  cases search with
  | stopped inside before ends => exact .stopped (Nat.succ_lt_succ inside) (shifted before) ends
  | exhausted all => exact .exhausted (shifted all)

theorem Search.unique {outcome : Nat → Issuing} {accepts : Identifier → Bool} {limit calls others : Nat}
    {result other : Selecting} (search : Search outcome accepts limit result calls)
    (again : Search outcome accepts limit other others) : other = result := by
  cases search with
  | stopped inside before ends =>
    rename_i call
    cases again with
    | stopped inside' before' ends' =>
      rename_i call'
      rcases Nat.lt_trichotomy call call' with earlier | same | later
      · cases (before' call earlier).symm.trans ends
      · subst same
        exact Option.some.inj (ends'.symm.trans ends)
      · cases (before call' later).symm.trans ends'
    | exhausted all => cases (all call inside).symm.trans ends
  | exhausted all =>
    cases again with
    | stopped inside' _ ends' => cases (all _ inside').symm.trans ends'
    | exhausted => rfl

structure LeftAfter (mint : Mint σ τ) (label : String) (panel : Panel) (calls : Nat)
    (last : Mint σ τ) : Prop where
  same : last = { mint.afterCalls label calls with journal := last.journal }
  minted : last.minted = (mint.afterCalls label calls).minted
  asked : ∃ candidates, last.minted = mint.minted ++ candidates ∧
    ∀ who, last.askedOf who = mint.askedOf who ++ candidates.filter (panel.asks who)

theorem leftAfter_zero (mint : Mint σ τ) (label : String) (panel : Panel) :
    LeftAfter mint label panel 0 mint where
  same := rfl
  minted := rfl
  asked := ⟨[], by simp⟩

theorem leftAfter_refused {mint drawn : Mint σ τ} {label : String} (panel : Panel) {result : Issuing}
    (issued : mint.issue label = (result, drawn))
    (unminted : ∀ candidate, result ≠ .ok (.ok candidate)) : LeftAfter mint label panel 1 drawn := by
  have journal := mint.issue_journal label
  rw [issued] at journal
  have once : mint.afterCalls label 1 = drawn := congrArg Prod.snd issued
  have kept : drawn.journal = mint.journal := by
    split at journal
    · rename_i candidate minted
      exact absurd minted (unminted candidate)
    · exact journal
  refine ⟨by rw [once], by rw [once], [], ?_, ?_⟩
  · rw [Mint.minted, kept, List.append_nil, Mint.minted]
  · intro who
    rw [askedOf, kept, List.filter_nil, List.append_nil, askedOf]

theorem leftAfter_asked {mint drawn : Mint σ τ} {label : String} {panel : Panel}
    (distinct : (panel.map Prod.fst).Nodup) {candidate : Identifier}
    (issued : mint.issue label = (.ok (.ok candidate), drawn)) :
    LeftAfter mint label panel 1
      { drawn with journal := (panel.questions candidate).reverse ++ drawn.journal } := by
  have journal : drawn.journal = .minted candidate :: mint.journal := by
    have written := mint.issue_journal label
    rw [issued] at written
    exact written
  have once : mint.afterCalls label 1 = drawn := congrArg Prod.snd issued
  have minted : ({ drawn with
      journal := (panel.questions candidate).reverse ++ drawn.journal } : Mint σ τ).minted =
        drawn.minted := by
    rw [minted_append, minted_questions, List.append_nil]
  refine ⟨by rw [once], by rw [once, minted], [candidate], ?_, ?_⟩
  · rw [minted]
    simp [Mint.minted, journal]
  · intro who
    rw [askedOf_append, askedOf_questions drawn candidate distinct]
    cases asks : panel.asks who candidate <;> simp [askedOf, journal, asks]

theorem LeftAfter.trans {mint middle last : Mint σ τ} {label : String} {panel : Panel} {calls : Nat}
    (first : LeftAfter mint label panel 1 middle) (rest : LeftAfter middle label panel calls last) :
    LeftAfter mint label panel (calls + 1) last := by
  obtain ⟨events, later⟩ := (mint.issue label).2.afterCalls_journal label calls
  have start : middle = { (mint.issue label).2 with journal := middle.journal } := first.same
  have continued := later middle.journal
  rw [← start] at continued
  have plain : mint.afterCalls label (calls + 1) = _ := later (mint.issue label).2.journal
  refine ⟨?_, ?_, ?_⟩
  · have same := rest.same
    rw [continued] at same
    exact same
  · have same : middle.minted = (mint.issue label).2.minted := first.minted
    rw [rest.minted, continued, plain, minted_append, minted_append]
    exact congrArg (· ++ _) same
  · obtain ⟨early, earlyMinted, earlyAsked⟩ := first.asked
    obtain ⟨late, lateMinted, lateAsked⟩ := rest.asked
    refine ⟨early ++ late, ?_, ?_⟩
    · rw [lateMinted, earlyMinted, List.append_assoc]
    · intro who
      rw [lateAsked, earlyAsked, List.filter_append, List.append_assoc]

theorem attempt_search {panel : Panel} (distinct : (panel.map Prod.fst).Nodup) (label : String)
    (attempts : Nat) : ∀ mint : Mint σ τ, ∃ calls,
      Search (mint.outcome label) panel.accepts attempts
        (attempt label panel.members attempts mint).1 calls ∧
      LeftAfter mint label panel calls (attempt label panel.members attempts mint).2 := by
  induction attempts with
  | zero =>
    intro mint
    exact ⟨0, .exhausted (by simp), leftAfter_zero mint label panel⟩
  | succ attempts rest =>
    intro mint
    have stops {result : Selecting} (ends : verdict panel.accepts (mint.outcome label 0) = some result) :
        Search (mint.outcome label) panel.accepts (attempts + 1) result 1 :=
      .stopped (Nat.zero_lt_succ attempts) (by simp) ends
    cases issued : mint.issue label with
    | mk result drawn =>
      have first : mint.outcome label 0 = result := congrArg Prod.fst issued
      rw [first] at stops
      rw [attempt, issued]
      cases result with
      | error cause => exact ⟨1, stops rfl, leftAfter_refused panel issued (by simp)⟩
      | ok result =>
        cases result with
        | error error => exact ⟨1, stops rfl, leftAfter_refused panel issued (by simp)⟩
        | ok candidate =>
          have left := leftAfter_asked distinct issued
          dsimp only
          rw [acceptedByAll_members]
          cases accepted : panel.accepts candidate with
          | true => exact ⟨1, stops (if_pos accepted), left⟩
          | false =>
            obtain ⟨calls, search, leftRest⟩ := rest
              { drawn with journal := (panel.questions candidate).reverse ++ drawn.journal }
            rw [outcome_journal, ← outcome_succ issued] at search
            refine ⟨calls + 1, search.next ?_, left.trans leftRest⟩
            rw [first, verdict, accepted]
            rfl

def Rejects (mint : Mint σ τ) (label : String) (predicates : List (Identifier → Bool)) (call : Nat) :
    Prop :=
  ∃ candidate, mint.outcome label call = .ok (.ok candidate) ∧ predicates.all (· candidate) = false

def InVain (mint : Mint σ τ) (label : String) (predicates : List (Identifier → Bool)) (calls : Nat) :
    Prop :=
  ∀ call < calls, mint.Rejects label predicates call

/-- A selection that is the search, through at most so many calls, for the first candidate that all
predicates accept. So many of the predicates, the first ones, are registered. -/
structure FirstMatch (start : Mint σ τ) (label : String) (predicates : List (Identifier → Bool))
    (registered limit : Nat) (ends : Selecting × Mint σ τ) : Prop where
  found : ∀ candidate, ends.1 = .ok (.ok (some candidate)) ↔ ∃ call < limit,
    start.InVain label predicates call ∧ start.outcome label call = .ok (.ok candidate) ∧
      predicates.all (· candidate) = true
  none : ends.1 = .ok (.ok none) ↔ start.InVain label predicates limit
  refused : ∀ error, ends.1 = .ok (.error error) ↔ ∃ call < limit,
    start.InVain label predicates call ∧ start.outcome label call = .ok (.error error)
  fault : ∀ cause, ends.1 = .error cause ↔ ∃ call < limit,
    start.InVain label predicates call ∧ start.outcome label call = .error cause
  /-- Whatever the end is, nothing but the journal tells the mint from one that was only called for
  identifiers, and each predicate was asked about the candidates that those before it accept. -/
  left : ∃ call < limit, start.InVain label predicates call ∧
    (start.Rejects label predicates call → call + 1 = limit) ∧
    ends.2 = { start.afterCalls label (call + 1) with journal := ends.2.journal } ∧
    ∃ candidates, (start.afterCalls label (call + 1)).minted = start.minted ++ candidates ∧
      ends.2.minted = start.minted ++ candidates ∧
      ∀ place < predicates.length, ends.2.askedOf (seat registered place) =
        start.askedOf (seat registered place) ++
          candidates.filter fun candidate => (predicates.take place).all (· candidate)

theorem verdict_eq_none_iff {mint : Mint σ τ} {label : String} {predicates : List (Identifier → Bool)}
    {call : Nat} :
    verdict (fun candidate => predicates.all (· candidate)) (mint.outcome label call) = none ↔
      mint.Rejects label predicates call := by
  rw [Rejects]
  rcases mint.outcome label call with cause | error | candidate
  · simp [verdict]
  · simp [verdict]
  · simp [verdict]

theorem verdict_eq_some_iff {accepts : Identifier → Bool} {outcome : Issuing} {result : Selecting} :
    verdict accepts outcome = some result ↔
      (∃ candidate, result = .ok (.ok (some candidate)) ∧ outcome = .ok (.ok candidate) ∧
        accepts candidate = true) ∨
      (∃ error, result = .ok (.error error) ∧ outcome = .ok (.error error)) ∨
        ∃ cause, result = .error cause ∧ outcome = .error cause := by
  rcases outcome with cause | error | candidate
  · constructor
    · rintro ⟨⟩
      exact .inr (.inr ⟨cause, rfl, rfl⟩)
    · rintro (⟨_, _, same, _⟩ | ⟨_, _, same⟩ | ⟨_, rfl, same⟩) <;> cases same
      rfl
  · constructor
    · rintro ⟨⟩
      exact .inr (.inl ⟨error, rfl, rfl⟩)
    · rintro (⟨_, _, same, _⟩ | ⟨_, rfl, same⟩ | ⟨_, _, same⟩) <;> cases same
      rfl
  · simp only [verdict, Option.ite_none_right_eq_some, Option.some.injEq, Except.ok.injEq,
      reduceCtorEq, and_false, exists_false, or_false]
    constructor
    · rintro ⟨accepted, rfl⟩
      exact ⟨candidate, rfl, rfl, accepted⟩
    · rintro ⟨other, rfl, rfl, accepted⟩
      exact ⟨accepted, rfl⟩

theorem exists_search_iff {start : Mint σ τ} {label : String} {predicates : List (Identifier → Bool)}
    {limit : Nat} {result : Selecting} :
    (∃ calls, Search (start.outcome label) (fun candidate => predicates.all (· candidate)) limit
        result calls) ↔
      (∃ call < limit, start.InVain label predicates call ∧
        verdict (fun candidate => predicates.all (· candidate)) (start.outcome label call) =
          some result) ∨
        (result = .ok (.ok none) ∧ start.InVain label predicates limit) := by
  constructor
  · rintro ⟨calls, search⟩
    cases search with
    | @stopped call _ inside before ends =>
      exact .inl ⟨call, inside, fun earlier less => verdict_eq_none_iff.1 (before earlier less), ends⟩
    | exhausted all => exact .inr ⟨rfl, fun call inside => verdict_eq_none_iff.1 (all call inside)⟩
  · rintro (⟨call, inside, before, ends⟩ | ⟨rfl, all⟩)
    · have unsettled : ∀ earlier < call, _ := fun earlier less =>
        verdict_eq_none_iff.2 (before earlier less)
      exact ⟨call + 1, .stopped inside unsettled ends⟩
    · exact ⟨limit, .exhausted fun call inside => verdict_eq_none_iff.2 (all call inside)⟩

theorem LeftAfter.asked_seat {start last : Mint σ τ} {label : String}
    {registered given : List (Identifier → Bool)} {calls : Nat}
    (left : LeftAfter start label (panelOf registered given) calls last) :
    ∃ candidates, (start.afterCalls label calls).minted = start.minted ++ candidates ∧
      last.minted = start.minted ++ candidates ∧
      ∀ place < (registered ++ given).length, last.askedOf (seat registered.length place) =
        start.askedOf (seat registered.length place) ++
          candidates.filter fun candidate => ((registered ++ given).take place).all (· candidate) := by
  obtain ⟨candidates, minted, asked⟩ := left.asked
  refine ⟨candidates, left.minted.symm.trans minted, minted, ?_⟩
  intro place inside
  have asks : (panelOf registered given).asks (seat registered.length place) = _ :=
    funext fun candidate =>
      asks_getElem (distinct_panelOf registered given) candidate (getElem?_panelOf inside)
  rw [asked, asks, predicates_panelOf]

theorem firstMatch_of_search {start : Mint σ τ} {label : String}
    {registered given : List (Identifier → Bool)} {limit calls : Nat} (positive : 0 < limit)
    {ends : Selecting × Mint σ τ}
    (search : Search (start.outcome label) (panelOf registered given).accepts limit ends.1 calls)
    (left : LeftAfter start label (panelOf registered given) calls ends.2) :
    FirstMatch start label (registered ++ given) registered.length limit ends := by
  have accepts : (panelOf registered given).accepts =
      fun candidate => (registered ++ given).all (· candidate) :=
    funext (accepts_panelOf registered given)
  rw [accepts] at search
  -- One result is that of a search, so each clause asks only which searches have its own result.
  have unique (other : Selecting) : ends.1 = other ↔ ∃ calls, Search (start.outcome label)
      (fun candidate => (registered ++ given).all (· candidate)) limit other calls :=
    ⟨fun same => ⟨calls, same ▸ search⟩, fun ⟨_, again⟩ => (search.unique again).symm⟩
  simp only [exists_search_iff, verdict_eq_some_iff] at unique
  refine ⟨?_, ?_, ?_, ?_, ?_⟩
  · intro candidate
    simp [unique]
  · simp [unique]
  · intro error
    simp [unique]
  · intro cause
    simp [unique]
  · generalize ends.1 = result at search
    cases search with
    | @stopped call _ inside before stops =>
      refine ⟨call, inside, fun earlier less => verdict_eq_none_iff.1 (before earlier less), ?_,
        left.same, left.asked_seat⟩
      intro rejects
      cases (verdict_eq_none_iff.2 rejects).symm.trans stops
    | exhausted all =>
      have last : limit - 1 + 1 = limit := by omega
      refine ⟨limit - 1, by omega, ?_, fun _ => last, ?_⟩
      · intro call inside
        exact verdict_eq_none_iff.1 (all call (by omega))
      · rw [last]
        exact ⟨left.same, left.asked_seat⟩

/-- Selection is a search for the first match among what plain calls issue. -/
theorem select_first_match (mint : Mint σ τ) (label : String)
    (registered given : List (Identifier → Bool)) (applyRegistered : Bool) (limit : Nat) :
    let start :=
      ({ mint with registered := registered.map .ofPredicate } : Mint σ τ).withAttemptLimit limit
    let first := if applyRegistered then registered else []
    FirstMatch start label (first ++ given) first.length (max 1 limit)
      (start.select label (given.map .ofPredicate) applyRegistered) := by
  intro start first
  have members : start.members (given.map .ofPredicate) applyRegistered =
      (panelOf first given).members := members_eq_panelOf given fun _ => rfl
  have selects : start.select label (given.map .ofPredicate) applyRegistered =
      attempt label (panelOf first given).members (max 1 limit) start := by
    rw [← members]
    rfl
  obtain ⟨calls, search, left⟩ :=
    attempt_search (distinct_panelOf first given) label (max 1 limit) start
  rw [selects]
  exact firstMatch_of_search (Nat.lt_of_lt_of_le Nat.one_pos (Nat.le_max_left 1 limit)) search left

end Mintmark.Mint
