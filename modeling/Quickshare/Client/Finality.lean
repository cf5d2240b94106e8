import Quickshare.Client.Emissions
import Quickshare.Client.Requests
import Quickshare.Client.Sending

/-! Whether a cancel of the server is final. `recv_cancel` drops one slot that
carries the id and can be cancelled; a slot that has answered yes cannot, and
becomes active all the same once its reply is emitted. -/

namespace Quickshare

open Runs Bytes

namespace TransferManager

variable {m next : TransferManager} {e : ManagerEvent} {i : Fin simTransfersMax}

/-- A host slot carries the id. -/
def hosts (m : TransferManager) (tId : TransferId) : Prop :=
  ∃ i, (m.hostTransfers i).state ≠ .empty ∧ (m.hostTransfers i).hdr.tId = tId

instance (m : TransferManager) (tId : TransferId) : Decidable (m.hosts tId) :=
  inferInstanceAs (Decidable (∃ _, _))

/-- The ids `recv_cancel` has processed a cancel for since the last request with the id. -/
abbrev Cancels := TransferId → Bool

/-- A cancel of a transfer that is not hosted counts, until a new request takes its id. -/
def noted (m : TransferManager) (e : ManagerEvent) (ids : Cancels) : Cancels :=
  match e with
  | .packet _ p =>
    if p.type? = some .transferCancel ∧ ¬ m.hosts p.tId then Function.update ids p.tId true
    else if p.type? = some .transferRequest then Function.update ids p.tId false
    else ids
  | _ => ids

/-- One event, with the ids cancelled. -/
def cancelStep (s : TransferManager × Cancels) (e : ManagerEvent) :
    Except Abort (TransferManager × Cancels) := do
  let next ← s.1.step e
  return (next, noted s.1 e s.2)

/-- No receive slot of a cancelled transfer is ACTIVE. -/
def final (s : TransferManager × Cancels) : Prop :=
  ∀ i, (s.1.recvTransfers i).state = .active → s.2 (s.1.recvTransfers i).hdr.tId = false

instance (s : TransferManager × Cancels) : Decidable (final s) :=
  inferInstanceAs (Decidable (∀ _, _))

/-- A receive slot that may be ACTIVE without another request. -/
def mayRun (t : ActiveTransfer) : Prop := t.canCancel = true ∨ t.state = .accept

instance (t : ActiveTransfer) : Decidable (mayRun t) := inferInstanceAs (Decidable (_ ∨ _))

/-- A cancel of a transfer that is not hosted finds every receive slot that
carries its id: at most one may run, and its answer has not been given. -/
def dropsAll (s : TransferManager × Cancels) : ManagerEvent → Prop
  | .packet _ p => p.type? = some .transferCancel → ¬ s.1.hosts p.tId →
      (∀ i, (s.1.recvTransfers i).hdr.tId = p.tId → (s.1.recvTransfers i).state ≠ .accept) ∧
        ∀ i j, (s.1.recvTransfers i).hdr.tId = p.tId → (s.1.recvTransfers j).hdr.tId = p.tId →
          (s.1.recvTransfers i).canCancel = true → (s.1.recvTransfers j).canCancel = true → i = j
  | _ => True

instance (s : TransferManager × Cancels) : (e : ManagerEvent) → Decidable (dropsAll s e)
  | .packet _ _ => inferInstanceAs (Decidable (_ → _))
  | .cmd _ | .work _ _ => isTrue trivial

/-- No receive slot of a cancelled transfer may run. -/
def Dropped (s : TransferManager × Cancels) : Prop :=
  ∀ i, mayRun (s.1.recvTransfers i) → s.2 (s.1.recvTransfers i).hdr.tId = false

theorem Dropped.final {s : TransferManager × Cancels} (dropped : Dropped s) : final s := by
  intro i active
  apply dropped
  left
  simp [ActiveTransfer.canCancel, active]

/-- A slot that may run after `do_work` might before. -/
theorem RecvCommanded.mayRun {t u : ActiveTransfer} (done : RecvCommanded t u)
    (runs : TransferManager.mayRun u) :
    TransferManager.mayRun t ∧ u.hdr = t.hdr := by
  cases done with
  | kept => exact ⟨runs, rfl⟩
  | replied asked reply => exact ⟨.inl (by simp [ActiveTransfer.canCancel, asked]), rfl⟩
  | cancelled can => exact ⟨.inl can, rfl⟩

theorem Worked.mayRun {env : WorkEnv} {p : Packet} {emitted : Option (Slot × Packet)}
    (worked : Worked m env p emitted next) (runs : TransferManager.mayRun (next.recvTransfers i)) :
    TransferManager.mayRun (m.recvTransfers i) ∧
      (next.recvTransfers i).hdr = (m.recvTransfers i).hdr := by
  have zeroed (j : Fin simTransfersMax) (state : InfoState) (file : List UInt8)
      (runs : TransferManager.mayRun
        (((m.modifyRecv j ActiveTransfer.zeroed).pushBacklog state file).recvTransfers i)) :
      TransferManager.mayRun (m.recvTransfers i) ∧
        (((m.modifyRecv j ActiveTransfer.zeroed).pushBacklog state file).recvTransfers i).hdr =
          (m.recvTransfers i).hdr := by
    by_cases here : i = j
    · subst here
      simp [TransferManager.mayRun, pushBacklog, modifyRecv_self, ActiveTransfer.zeroed,
        ActiveTransfer.canCancel] at runs
    · simp only [pushBacklog, modifyRecv_of_ne _ _ here] at runs ⊢
      exact ⟨runs, trivial⟩
  cases worked with
  | cancelRecv j => exact zeroed j _ _ runs
  | deny j => exact zeroed j _ _ runs
  | accept j accepted =>
    by_cases here : i = j
    · subst here
      rw [modifyRecv_self]
      exact ⟨.inr accepted, rfl⟩
    · rw [modifyRecv_of_ne _ _ here] at runs ⊢
      exact ⟨runs, rfl⟩
  | _ => exact ⟨runs, rfl⟩

/-- A packet lets no other slot run than a request that takes one. -/
theorem PacketHandled.mayRun {env : PacketEnv} {p : Packet} (handled : PacketHandled m env p next)
    (runs : TransferManager.mayRun (next.recvTransfers i)) :
    (TransferManager.mayRun (m.recvTransfers i) ∧
        (next.recvTransfers i).hdr = (m.recvTransfers i).hdr) ∨
      (p.type? = some .transferRequest ∧ (next.recvTransfers i).hdr.tId = p.tId) := by
  cases handled with
  | requested j type =>
    by_cases here : i = j
    · subst here
      rw [modifyRecv_self]
      exact .inr ⟨type, rfl⟩
    · rw [modifyRecv_of_ne _ _ here] at runs ⊢
      exact .inl ⟨runs, rfl⟩
  | dropped j =>
    by_cases here : i = j
    · subst here
      simp [TransferManager.mayRun, pushBacklog, modifyRecv_self, ActiveTransfer.zeroed,
        ActiveTransfer.canCancel] at runs
    · simp only [pushBacklog, modifyRecv_of_ne _ _ here] at runs ⊢
      exact .inl ⟨runs, trivial⟩
  | written j =>
    by_cases here : i = j
    · subst here
      rw [modifyRecv_self] at runs ⊢
      exact .inl ⟨runs, rfl⟩
    · rw [modifyRecv_of_ne _ _ here] at runs ⊢
      exact .inl ⟨runs, rfl⟩
  | completed j =>
    by_cases here : i = j
    · subst here
      simp [TransferManager.mayRun, pushBacklog, modifyRecv_self, ActiveTransfer.zeroed,
        ActiveTransfer.canCancel] at runs
    · simp only [pushBacklog, modifyRecv_of_ne _ _ here] at runs ⊢
      exact .inl ⟨runs, trivial⟩
  | _ => exact .inl ⟨runs, rfl⟩

theorem recvCancel_found {hdr : TransferHdr}
    (found : m.recvTransfers.search (cancels hdr.tId) = some i) : m.recvCancel hdr =
      (m.modifyRecv i ActiveTransfer.zeroed).pushBacklog .cancelled (m.recvTransfers i).file := by
  simp only [recvCancel, found]

theorem recvCancel_none {hdr : TransferHdr}
    (none : m.recvTransfers.search (cancels hdr.tId) = Option.none) :
    (m.recvCancel hdr).recvTransfers = m.recvTransfers := by
  simp only [recvCancel, none]
  split <;> rfl

/-- After a cancel of a transfer that is not hosted no slot that carries its id may run. -/
theorem recvCancel_drops {s : TransferManager × Cancels} {env : PacketEnv} {p : Packet}
    (type : p.type? = some .transferCancel) (drops : dropsAll s (.packet env p))
    (received : ¬ s.1.hosts p.tId) (runs : mayRun ((s.1.recvCancel p.hdr).recvTransfers i)) :
    ((s.1.recvCancel p.hdr).recvTransfers i).hdr.tId ≠ p.tId := by
  obtain ⟨unanswered, one⟩ := drops type received
  cases found : s.1.recvTransfers.search (cancels p.hdr.tId) with
  | some j =>
    have dropped := cancels_canCancel (TransferArray.search_some found)
    rw [recvCancel_found found] at runs ⊢
    by_cases here : i = j
    · subst here
      simp [mayRun, pushBacklog, modifyRecv_self, ActiveTransfer.zeroed,
        ActiveTransfer.canCancel] at runs
    · simp only [pushBacklog, modifyRecv_of_ne _ _ here] at runs ⊢
      intro named
      rcases runs with can | accepted
      · exact here (one i j named dropped.2.symm can dropped.1)
      · exact unanswered i named accepted
  | none =>
    rw [recvCancel_none found] at runs ⊢
    intro named
    rcases runs with can | accepted
    · have missed := TransferArray.search_none found i
      simp [cancels, can, named, Packet.hdr] at missed
    · exact unanswered i named accepted

theorem Dropped.step {s t : TransferManager × Cancels} (dropped : Dropped s)
    (drops : dropsAll s e) (taken : cancelStep s e = .ok t) : Dropped t := by
  obtain ⟨next, stepped, done⟩ := bind_ok taken
  cases done
  intro i runs
  dsimp only at runs ⊢
  cases e with
  | cmd cmd =>
    cases stepped
    rw [(sendCmd_slots s.1 cmd).1] at runs ⊢
    exact dropped i runs
  | work env p =>
    obtain ⟨before, same⟩ := (step_worked stepped).mayRun runs
    obtain ⟨first, also⟩ := (processCmds_recv s.1 env i).mayRun before
    rw [same, also]
    exact dropped i first
  | packet env p =>
    have before := (handle_handled stepped).mayRun runs
    by_cases counts : p.type? = some .transferCancel ∧ ¬ s.1.hosts p.tId
    · obtain ⟨type, received⟩ := counts
      have handled : s.1.handle env p = .ok (s.1.recvCancel p.hdr) := by
        simp only [handle, type]
      cases handled.symm.trans stepped
      simp only [noted, type, received, not_false_eq_true, and_self, if_true]
      rcases before with ⟨before, same⟩ | ⟨requested, -⟩
      · rw [Function.update_of_ne (recvCancel_drops type drops received runs), same]
        exact dropped i before
      · rw [type] at requested
        cases requested
    · simp only [noted, if_neg counts]
      rcases before with ⟨before, same⟩ | ⟨requested, named⟩
      · rw [same]
        split
        · by_cases here : (s.1.recvTransfers i).hdr.tId = p.tId
          · rw [here, Function.update_self]
          · rw [Function.update_of_ne here]
            exact dropped i before
        · exact dropped i before
      · rw [if_pos requested, named, Function.update_self]

/-- In every run in which each cancel of a transfer not hosted finds at most one
receive slot that may run, and none that has answered yes, a cancel is final. -/
theorem cancel_final (events : List ManagerEvent)
    (drops : Guarded cancelStep dropsAll (.init, fun _ => false) events) :
    Throughout cancelStep final (.init, fun _ => false) events := by
  have start : Dropped (.init, fun _ => false) := fun _ _ => rfl
  apply drops.throughout start
  · intro s e t dropped drops taken
    exact dropped.step drops taken
  · intro s dropped
    exact dropped.final

end TransferManager

/-- A transfer that is running is cancelled. -/
def runningCancel : List ManagerEvent :=
  [.packet .opening fileOffer, .cmd (.reply 1 true), .work .none (Mem.zero packetMaxSize),
    .packet .opening offerCancel]

/-- The cancel drops the ACTIVE slot. -/
theorem cancel_final_running :
    (run TransferManager.step .init (runningCancel.take 3)).map
      (fun m => (m.recvTransfers 0).state) = .ok .active ∧
    (run TransferManager.step .init runningCancel).map
      (fun m => (m.recvTransfers 0).state) = .ok .empty ∧
    Throughout TransferManager.cancelStep TransferManager.final (.init, fun _ => false)
      runningCancel := by
  refine ⟨?_, ?_, TransferManager.cancel_final runningCancel ?_⟩
  · decide +kernel
  · decide +kernel
  · decide +kernel

/-- A cancel between the user's answer and its reply is lost: a host transfer
has its turn first, so the slot becomes ACTIVE after the cancel. -/
theorem cancel_overtaken : ¬ ∀ events : List ManagerEvent, Throughout TransferManager.cancelStep
    TransferManager.final (.init, fun _ => false) events := by
  intro all
  have passed := all [.packet .opening fileOffer, .cmd fileRequest, .cmd (.reply 1 true),
    .work .oneByte (Mem.zero packetMaxSize), .packet .opening offerCancel,
    .work .oneByte (Mem.zero packetMaxSize)]
  revert passed
  decide +kernel

end Quickshare
