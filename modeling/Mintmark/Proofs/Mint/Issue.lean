import Mintmark.Proofs.Mint.Run

/-!
Every way in which issuing can end, and what it leaves of the node and of the journal.
-/
namespace Mintmark.Mint
variable {σ τ : Type}

@[simp] theorem minted_record_minted (mint : Mint σ τ) (identifier : Identifier) :
    (mint.record (.minted identifier)).minted = mint.minted ++ [identifier] := by
  simp [minted, record]

@[simp] theorem minted_record_asked (mint : Mint σ τ) (member : Member) (candidate : Identifier) :
    (mint.record (.asked member candidate)).minted = mint.minted := by
  simp [minted, record]

variable [Sequencer σ] [Clock τ]

inductive Issue (mint : Mint σ τ) (label : String) :
    Except ClockFault (Except MintError Identifier) → Mint σ τ → Prop
  | unlabelled (empty : label = "") : Issue mint label (.ok (.error .emptyLabel)) mint
  | unassigned (nonempty : label ≠ "") (free : mint.node.held = none) :
    Issue mint label (.ok (.error .uninitialized)) mint
  | fault (nonempty : label ≠ "") (node : Node) (held : mint.node.held = some node)
    (cause : ClockFault) (stopped : mint.source.next.1 = .error (.clock cause)) :
    Issue mint label (.error cause) { mint with source := mint.source.next.2 }
  | poisoned (nonempty : label ≠ "") (node : Node) (held : mint.node.held = some node)
    (stopped : mint.source.next.1 = .error .poisoned) :
    Issue mint label (.ok (.error .lockPoisoned)) { mint with source := mint.source.next.2 }
  | refused (nonempty : label ≠ "") (node : Node) (held : mint.node.held = some node)
    (stamp : Stamp) (drawn : mint.source.next.1 = .ok stamp) (error : PartsError)
    (made : Identifier.ofParts label (.ofMillis stamp.millis) node stamp.sequence = .error error) :
    Issue mint label (.ok (.error (.parts error))) { mint with source := mint.source.next.2 }
  | minted (nonempty : label ≠ "") (node : Node) (held : mint.node.held = some node)
    (stamp : Stamp) (drawn : mint.source.next.1 = .ok stamp) (identifier : Identifier)
    (made : Identifier.ofParts label (.ofMillis stamp.millis) node stamp.sequence = .ok identifier) :
    Issue mint label (.ok (.ok identifier))
      (({ mint with source := mint.source.next.2 } : Mint σ τ).record (.minted identifier))

theorem issue_ends (mint : Mint σ τ) (label : String) :
    Issue mint label (mint.issue label).1 (mint.issue label).2 := by
  unfold issue
  split
  · rename_i empty
    exact .unlabelled (by simpa using empty)
  · rename_i nonempty
    have nonempty : label ≠ "" := by simpa using nonempty
    split
    · rename_i free
      exact .unassigned nonempty free
    · rename_i node held
      cases drawn : mint.source.next with
      | mk outcome source =>
        have outcomes : mint.source.next.1 = outcome := congrArg Prod.fst drawn
        have sources : source = mint.source.next.2 := (congrArg Prod.snd drawn).symm
        subst sources
        cases outcome with
        | error stop =>
          cases stop with
          | poisoned => exact .poisoned nonempty node held outcomes
          | clock cause => exact .fault nonempty node held cause outcomes
        | ok stamp =>
          dsimp only
          split
          · rename_i error made
            exact .refused nonempty node held stamp outcomes error made
          · rename_i identifier made
            exact .minted nonempty node held stamp outcomes identifier made

theorem exists_ends {mint : Mint σ τ} {label : String}
    {result : Except ClockFault (Except MintError Identifier)}
    (issued : (mint.issue label).1 = result) : ∃ after, Issue mint label result after :=
  ⟨_, issued ▸ issue_ends mint label⟩

theorem issue_of_drawn {mint : Mint σ τ} {label : String} (nonempty : label ≠ "") {node : Node}
    (held : mint.node.held = some node) {stamp : Stamp} {source : Source σ τ}
    (drawn : mint.source.next = (.ok stamp, source)) {identifier : Identifier}
    (made : Identifier.ofParts label (.ofMillis stamp.millis) node stamp.sequence = .ok identifier) :
    mint.issue label = (.ok (.ok identifier),
      ({ mint with source } : Mint σ τ).record (.minted identifier)) := by
  have unlabelled : label.isEmpty = false := String.isEmpty_eq_false_iff.2 nonempty
  simp only [issue, unlabelled, held, drawn, made, Bool.false_eq_true, if_false]

theorem made_of_issue {mint drawn : Mint σ τ} {label : String} {identifier : Identifier}
    (issued : mint.issue label = (.ok (.ok identifier), drawn)) :
    ∃ stamp node, mint.node.held = some node ∧ mint.source.next.1 = .ok stamp ∧
      Identifier.ofParts label (.ofMillis stamp.millis) node stamp.sequence = .ok identifier ∧
      drawn = ({ mint with source := mint.source.next.2 } : Mint σ τ).record (.minted identifier) := by
  have ends := issue_ends mint label
  rw [issued] at ends
  cases ends with
  | minted _ node held stamp drawn _ made => exact ⟨stamp, node, held, drawn, made, rfl⟩

/-- What issuing comes to depends on the source and on the node alone, and it changes nothing but the
source and the journal. -/
theorem issue_local (mint : Mint σ τ) (label : String) :
    ∃ source events, (∀ event ∈ events, ∃ identifier, event = .minted identifier) ∧
      ∀ registered attemptLimit journal,
        ({ mint with registered, attemptLimit, journal } : Mint σ τ).issue label =
          ((mint.issue label).1,
            { mint with source, registered, attemptLimit, journal := events ++ journal }) := by
  obtain ⟨source, ⟨held⟩, registered, attemptLimit, journal⟩ := mint
  unfold issue
  dsimp only
  cases label.isEmpty with
  | true => exact ⟨source, [], nofun, fun _ _ _ => rfl⟩
  | false =>
    cases held with
    | none => exact ⟨source, [], nofun, fun _ _ _ => rfl⟩
    | some node =>
      rcases source.next with ⟨(_ | fault) | stamp, reached⟩
      · exact ⟨reached, [], nofun, fun _ _ _ => rfl⟩
      · exact ⟨reached, [], nofun, fun _ _ _ => rfl⟩
      · dsimp only
        cases Identifier.ofParts label (.ofMillis stamp.millis) node stamp.sequence with
        | error error => exact ⟨reached, [], nofun, fun _ _ _ => rfl⟩
        | ok identifier => exact ⟨reached, [.minted identifier], by simp, fun _ _ _ => rfl⟩

theorem issue_kept (mint : Mint σ τ) (label : String) :
    ∃ source journal, (mint.issue label).2 = { mint with source, journal } := by
  obtain ⟨source, events, -, same⟩ := mint.issue_local label
  exact ⟨source, _, congrArg Prod.snd (same mint.registered mint.attemptLimit mint.journal)⟩

theorem issue_node (mint : Mint σ τ) (label : String) : (mint.issue label).2.node = mint.node := by
  obtain ⟨source, journal, same⟩ := mint.issue_kept label
  rw [same]

theorem issue_registered (mint : Mint σ τ) (label : String) :
    (mint.issue label).2.registered = mint.registered := by
  obtain ⟨source, journal, same⟩ := mint.issue_kept label
  rw [same]

theorem Reaches.node {mint last : Mint σ τ} (reaches : Reaches mint last) : last.node = mint.node := by
  induction reaches with
  | refl mint => rfl
  | issue label _ same => rw [same, issue_node]
  | register constraint _ same => exact same
  | ask member candidate _ same => exact same

theorem issue_attemptLimit (mint : Mint σ τ) (label : String) :
    (mint.issue label).2.attemptLimit = mint.attemptLimit := by
  obtain ⟨source, journal, same⟩ := mint.issue_kept label
  rw [same]

theorem Reaches.attemptLimit {mint last : Mint σ τ} (reaches : Reaches mint last) :
    last.attemptLimit = mint.attemptLimit := by
  induction reaches with
  | refl mint => rfl
  | issue label _ same => rw [same, issue_attemptLimit]
  | register constraint _ same => exact same
  | ask member candidate _ same => exact same

theorem run_attemptLimit (mint : Mint σ τ) (requests : List Request) :
    (mint.run requests).2.attemptLimit = mint.attemptLimit :=
  run_keeps (fun _ _ kept => kept) (fun _ _ reaches kept => reaches.attemptLimit.trans kept)
    requests mint rfl

/-- The first seed that was offered decides the node, if the mint did not have one before. -/
theorem run_node (requests : List Request) : ∀ mint : Mint σ τ,
    (mint.run requests).2.node.held =
      mint.node.held.or ((requests.findSome? Request.seed?).map Node.ofSeed) := by
  induction requests with
  | nil =>
    intro mint
    simp [run]
  | cons request requests rest =>
    intro mint
    have runs : (mint.run (request :: requests)).2 = ((mint.respond request).2.run requests).2 := rfl
    rw [runs, rest, List.findSome?_cons]
    cases offers : request.seed? with
    | none => rw [(reaches_respond mint request offers).node]
    | some seed =>
      rw [Request.eq_assignNode offers]
      cases held : mint.node.held <;> simp [respond, assignNode, NodeCell.assign, held]

end Mintmark.Mint
