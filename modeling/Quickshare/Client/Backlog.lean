import Quickshare.Client.Emissions

/-! The backlog. Every event empties at most one slot, and every way to empty a
slot pushes one entry, with the file the slot had all along. -/

namespace Quickshare

open Runs

namespace TransferManager

variable {m k next : TransferManager} {env : WorkEnv} {e : ManagerEvent}
variable {s r : Slot} {p q : Packet} {i : Fin simTransfersMax}

/-- The slot goes from non-EMPTY to EMPTY. -/
def emptied (m next : TransferManager) (s : Slot) : Prop :=
  (m.slot s).state ≠ .empty ∧ (next.slot s).state = .empty

/-- A host slot emits `P_TRANSFER_COMPLETE`, or a receive slot handles it while ACTIVE. -/
def finishes (m : TransferManager) (e : ManagerEvent) : Slot → Prop
  | .host i => ∃ q, m.emission e = some (.host i, q) ∧ q.type? = some .transferComplete
  | .recv i => ∃ env p, e = .packet env p ∧ p.type? = some .transferComplete ∧
      m.recvTransfers.search (completes p.tId) = some i

/-- The slot emits a refusing reply. -/
def refuses (m : TransferManager) (e : ManagerEvent) (s : Slot) : Prop :=
  ∃ q, m.emission e = some (s, q) ∧ q.type? = some .transferReply ∧ q.replyAccept = 0

/-- How the transfer of a slot emptied by the event ended. -/
structure Outcome (m : TransferManager) (e : ManagerEvent) (s : Slot) (state : InfoState) : Prop where
  complete : state = .complete ↔ m.finishes e s
  denied : state = .denied ↔ m.refuses e s
  cancelled : state = .cancelled ↔ ¬ m.finishes e s ∧ ¬ m.refuses e s

/-- One entry for the one slot emptied, none where there is none; and a slot that
finishes or refuses is emptied. -/
def Accounts (m : TransferManager) (e : ManagerEvent) (next : TransferManager) : Prop :=
  (((∀ s, ¬ emptied m next s) ∧ next.backlog = m.backlog) ∨
    ∃ s state, (∀ r, emptied m next r ↔ r = s) ∧
      next.backlog = m.backlog ++ [⟨state, (m.slot s).file⟩] ∧ m.Outcome e s state) ∧
  ∀ s, m.finishes e s ∨ m.refuses e s → emptied m next s

def accounted (m : TransferManager) (e : ManagerEvent) : Prop :=
  ∀ next, m.step e = .ok next → Accounts m e next

/-! Commands -/

theorem processCmds_backlog (m : TransferManager) (env : WorkEnv) :
    (m.processCmds env).backlog = m.backlog := by
  refine processCmds_rule (P := fun k => k.backlog = m.backlog) m env rfl ?_ fun _ held => held
  intro k cmd next _ held done
  cases done <;> exact held

/-- Commands empty no slot, and a slot they leave at work but for a request is
the one it was. -/
theorem processCmds_slot (m : TransferManager) (env : WorkEnv) (s : Slot) :
    (((m.processCmds env).slot s).state = .empty → (m.slot s).state = .empty) ∧
      (((m.processCmds env).slot s).state ≠ .empty → ((m.processCmds env).slot s).state ≠ .sendReq →
        (m.slot s).state ≠ .empty ∧ ((m.processCmds env).slot s).file = (m.slot s).file) := by
  cases s with
  | host i =>
    have commanded := processCmds_host m env i
    simp only [slot]
    generalize (m.processCmds env).hostTransfers i = u at commanded ⊢
    cases commanded with
    | kept => exact ⟨id, fun busy _ => ⟨busy, rfl⟩⟩
    | refused idle => exact ⟨fun _ => idle, fun busy _ => absurd idle busy⟩
    | requested => simp
    | cancelled can =>
      refine ⟨by simp, fun _ _ => ⟨?_, rfl⟩⟩
      intro idle
      simp [ActiveTransfer.canCancel, idle] at can
  | recv i =>
    have commanded := processCmds_recv m env i
    simp only [slot]
    generalize (m.processCmds env).recvTransfers i = u at commanded ⊢
    cases commanded with
    | kept => exact ⟨id, fun busy _ => ⟨busy, rfl⟩⟩
    | replied asked reply =>
      refine ⟨fun idle => ?_, fun _ _ => ⟨by simp [asked], rfl⟩⟩
      cases reply <;> cases idle
    | cancelled can =>
      refine ⟨by simp, fun _ _ => ⟨?_, rfl⟩⟩
      intro idle
      simp [ActiveTransfer.canCancel, idle] at can

/-! Events that empty a slot, and those that do not. -/

/-- Nothing is emptied where only busy slots change, and stay busy. -/
theorem emptied_none (commands : ∀ r, (k.slot r).state = .empty → (m.slot r).state = .empty)
    (stays : ∀ r, (next.slot r).state = .empty → (k.slot r).state = .empty) (r : Slot) :
    ¬ emptied m next r := by
  rintro ⟨busy, idle⟩
  exact busy (commands r (stays r idle))

theorem emptied_one (commands : ∀ r, (k.slot r).state = .empty → (m.slot r).state = .empty)
    (busy : (m.slot s).state ≠ .empty) (idle : (next.slot s).state = .empty)
    (others : ∀ r, r ≠ s → next.slot r = k.slot r) (r : Slot) : emptied m next r ↔ r = s := by
  constructor
  · rintro ⟨before, after⟩
    by_contra other
    rw [others r other] at after
    exact before (commands r after)
  · rintro rfl
    exact ⟨busy, idle⟩

/-- A slot that had `file` all along goes, with an entry of how it ended. -/
theorem accounts_emptied {f : ActiveTransfer → ActiveTransfer} {state : InfoState}
    (commands : ∀ r, (k.slot r).state = .empty → (m.slot r).state = .empty)
    (backlog : k.backlog = m.backlog) (busy : (m.slot s).state ≠ .empty)
    (file : (k.slot s).file = (m.slot s).file) (idle : (f (k.slot s)).state = .empty)
    (outcome : m.Outcome e s state) (only : ∀ r, m.finishes e r ∨ m.refuses e r → r = s) :
    Accounts m e ((k.modifySlot s f).pushBacklog state (k.slot s).file) := by
  have changed : ((k.modifySlot s f).pushBacklog state (k.slot s).file).slot s = f (k.slot s) :=
    k.modifySlot_self s f
  have others (r : Slot) (other : r ≠ s) :
      ((k.modifySlot s f).pushBacklog state (k.slot s).file).slot r = k.slot r :=
    k.modifySlot_of_ne f other
  have one := emptied_one commands busy (changed ▸ idle) others
  have kept : (k.modifySlot s f).backlog = k.backlog := by
    cases s <;> rfl
  refine ⟨.inr ⟨s, state, one, ?_, outcome⟩, ?_⟩
  · simp only [pushBacklog, kept, backlog, file]
  · intro r ended
    exact (one r).mpr (only r ended)

theorem accounts_kept {f : ActiveTransfer → ActiveTransfer}
    (commands : ∀ r, (k.slot r).state = .empty → (m.slot r).state = .empty)
    (backlog : k.backlog = m.backlog) (stays : (f (k.slot s)).state = .empty → (k.slot s).state = .empty)
    (none : ∀ r, ¬ m.finishes e r ∧ ¬ m.refuses e r) : Accounts m e (k.modifySlot s f) := by
  have kept : (k.modifySlot s f).backlog = k.backlog := by
    cases s <;> rfl
  refine ⟨.inl ⟨emptied_none commands ?_, kept.trans backlog⟩, ?_⟩
  · intro r idle
    by_cases here : r = s
    · subst here
      rw [modifySlot_self] at idle
      exact stays idle
    · rwa [modifySlot_of_ne _ _ here] at idle
  · rintro r (finished | refused)
    · exact absurd finished (none r).1
    · exact absurd refused (none r).2

/-! How slots end -/

theorem Outcome.finished (yes : m.finishes e s) (no : ¬ m.refuses e s) :
    m.Outcome e s .complete := by
  constructor <;> simp [yes, no]

theorem Outcome.refused (no : ¬ m.finishes e s) (yes : m.refuses e s) : m.Outcome e s .denied := by
  constructor <;> simp [yes, no]

theorem Outcome.stopped (no : ¬ m.finishes e s) (neither : ¬ m.refuses e s) :
    m.Outcome e s .cancelled := by
  constructor <;> simp [no, neither]

theorem finishes_work (emits : m.emission (.work env p) = some (s, q)) :
    m.finishes (.work env p) r → r = s ∧ q.type? = some .transferComplete := by
  intro finished
  cases r with
  | host i =>
    obtain ⟨made, emitted, type⟩ := finished
    cases emits.symm.trans emitted
    exact ⟨rfl, type⟩
  | recv i =>
    obtain ⟨_, _, packet, -⟩ := finished
    cases packet

theorem refuses_work (emits : m.emission (.work env p) = some (s, q)) :
    m.refuses (.work env p) r → r = s ∧ q.type? = some .transferReply ∧ q.replyAccept = 0 := by
  rintro ⟨made, emitted, type, refused⟩
  cases emits.symm.trans emitted
  exact ⟨rfl, type, refused⟩

/-- A slot that emits another packet neither finishes nor refuses. -/
theorem neither_of_type (emits : m.emission (.work env p) = some (s, q))
    (type : q.type? = some sent) (unfinished : sent ≠ .transferComplete) (other : sent ≠ .transferReply)
    (r : Slot) : ¬ m.finishes (.work env p) r ∧ ¬ m.refuses (.work env p) r := by
  constructor
  · intro finished
    have named := (finishes_work emits finished).2
    rw [type] at named
    exact unfinished (Option.some.inj named)
  · intro refused
    have named := (refuses_work emits refused).2.1
    rw [type] at named
    exact other (Option.some.inj named)

/-- A slot that goes with a cancel. -/
theorem accounts_cancelled {f : ActiveTransfer → ActiveTransfer}
    (commands : ∀ r, (k.slot r).state = .empty → (m.slot r).state = .empty)
    (backlog : k.backlog = m.backlog)
    (before : (m.slot s).state ≠ .empty ∧ (k.slot s).file = (m.slot s).file)
    (emits : m.emission (.work env p) = some (s, q)) (type : q.type? = some .transferCancel)
    (idle : (f (k.slot s)).state = .empty) :
    Accounts m (.work env p) ((k.modifySlot s f).pushBacklog .cancelled (k.slot s).file) := by
  have neither := neither_of_type emits type (by simp) (by simp)
  refine accounts_emptied commands backlog before.1 before.2 idle
    (.stopped (neither s).1 (neither s).2) ?_
  rintro r (finished | refused)
  · exact absurd finished (neither r).1
  · exact absurd refused (neither r).2

theorem accounts_work (taken : m.step (.work env p) = .ok next) :
    Accounts m (.work env p) next := by
  have commands (r : Slot) := (processCmds_slot m env r).1
  have before (r : Slot) := (processCmds_slot m env r).2
  have backlog := processCmds_backlog m env
  have worked := step_worked taken
  generalize emits : m.emission (.work env p) = emission at worked
  generalize m.processCmds env = k at commands before backlog worked
  cases worked with
  | nothing =>
    have none (r : Slot) : ¬ m.finishes (.work env p) r ∧ ¬ m.refuses (.work env p) r := by
      constructor
      · intro finished
        cases r with
        | host i => simp [finishes, emits] at finished
        | recv i => simp [finishes] at finished
      · simp [refuses, emits]
    refine ⟨.inl ⟨emptied_none commands fun _ idle => idle, backlog⟩, ?_⟩
    rintro r (finished | refused)
    · exact absurd finished (none r).1
    · exact absurd refused (none r).2
  | request i asked =>
    have neither := neither_of_type emits (requestPacket_type _ _) (by simp) (by simp)
    exact accounts_kept (s := .host i) commands backlog (by simp) neither
  | @data q f i active read =>
    have neither := neither_of_type emits (dataPacket_type _ read) (by simp) (by simp)
    exact accounts_kept (s := .host i) commands backlog id neither
  | accept i accepted =>
    have unfinished (r : Slot) : ¬ m.finishes (.work env p) r := by
      intro finished
      have type := (finishes_work emits finished).2
      simp [replyPacket_type] at type
    have agrees (r : Slot) : ¬ m.refuses (.work env p) r := by
      intro refused
      have accept := (refuses_work emits refused).2.2
      simp [replyPacket_accept, accepted] at accept
    exact accounts_kept (s := .recv i) commands backlog (by simp) fun r => ⟨unfinished r, agrees r⟩
  | cancelHost i cancelled =>
    have here : (k.slot (.host i)).state = .cancel := cancelled
    exact accounts_cancelled (s := .host i) commands backlog (before _ (by simp [here]) (by simp [here]))
      emits (cancelPacket_type _ _) rfl
  | failed i active ripe read stopped =>
    have here : (k.slot (.host i)).state = .active := active
    exact accounts_cancelled (s := .host i) commands backlog (before _ (by simp [here]) (by simp [here]))
      emits (cancelPacket_type _ _) rfl
  | cancelRecv i cancelled =>
    have here : (k.slot (.recv i)).state = .cancel := cancelled
    exact accounts_cancelled (s := .recv i) commands backlog (before _ (by simp [here]) (by simp [here]))
      emits (cancelPacket_type _ _) rfl
  | complete i active read =>
    have here : (k.slot (.host i)).state = .active := active
    obtain ⟨busy, file⟩ := before (.host i) (by simp [here]) (by simp [here])
    have agrees (r : Slot) : ¬ m.refuses (.work env p) r := by
      intro refused
      have type := (refuses_work emits refused).2.1
      simp [completePacket_type] at type
    refine accounts_emptied (s := .host i) commands backlog busy file rfl
      (.finished ⟨_, emits, completePacket_type _ _⟩ (agrees _)) ?_
    rintro r (finished | refused)
    · exact (finishes_work emits finished).1
    · exact absurd refused (agrees r)
  | deny i denied =>
    have here : (k.slot (.recv i)).state = .deny := denied
    obtain ⟨busy, file⟩ := before (.recv i) (by simp [here]) (by simp [here])
    have unfinished (r : Slot) : ¬ m.finishes (.work env p) r := by
      intro finished
      have type := (finishes_work emits finished).2
      simp [replyPacket_type] at type
    have refused : m.refuses (.work env p) (.recv i) := by
      refine ⟨_, emits, replyPacket_type _ _, ?_⟩
      simp [replyPacket_accept, denied]
    refine accounts_emptied (s := .recv i) commands backlog busy file rfl
      (.refused (unfinished _) refused) ?_
    rintro r (finished | refused)
    · exact absurd finished (unfinished r)
    · exact (refuses_work emits refused).1

/-! Packets -/

theorem not_refuses_packet (m : TransferManager) (env : PacketEnv) (p : Packet) (s : Slot) :
    ¬ m.refuses (.packet env p) s := by
  simp [refuses, emission]

/-- A complete that means a slot ends it. -/
theorem handle_completes {env : PacketEnv} (type : p.type? = some .transferComplete)
    (found : m.recvTransfers.search (completes p.tId) = some i) :
    m.handle env p = .ok ((m.modifyRecv i fun t => { t with
      fManager := t.fManager.close }.zeroed).pushBacklog .complete (m.recvTransfers i).file) := by
  have searched : (m.recvTransfers.search fun t => t.state = .active ∧ p.tId = t.hdr.tId) = some i :=
    found
  simp only [handle, type, recvComplete, searched]

theorem accounts_finished {env : PacketEnv} (taken : m.step (.packet env p) = .ok next)
    (type : p.type? = some .transferComplete)
    (found : m.recvTransfers.search (completes p.tId) = some i) :
    Accounts m (.packet env p) next := by
  have active : (m.slot (.recv i)).state = .active := by
    have here := TransferArray.search_some found
    simp only [completes, decide_eq_true_eq] at here
    exact here.1
  have finished : m.finishes (.packet env p) (.recv i) := ⟨env, p, rfl, type, found⟩
  cases (handle_completes type found).symm.trans taken
  refine accounts_emptied (s := .recv i) (fun _ idle => idle) rfl (by simp [active]) rfl rfl
    (.finished finished (not_refuses_packet m env p _)) ?_
  rintro r (other | refused)
  · cases r with
    | host j => simp [finishes, emission] at other
    | recv j =>
      obtain ⟨env, q, same, -, also⟩ := other
      cases same
      cases found.symm.trans also
      rfl
  · exact absurd refused (not_refuses_packet m env p r)

theorem accounts_packet {env : PacketEnv} (taken : m.step (.packet env p) = .ok next) :
    Accounts m (.packet env p) next := by
  by_cases finished : ∃ s, m.finishes (.packet env p) s
  · obtain ⟨s, finished⟩ := finished
    cases s with
    | host j => simp [finishes, emission] at finished
    | recv j =>
      obtain ⟨env, q, same, type, found⟩ := finished
      cases same
      exact accounts_finished taken type found
  · have neither (r : Slot) : ¬ m.finishes (.packet env p) r ∧ ¬ m.refuses (.packet env p) r :=
      ⟨fun ends => finished ⟨r, ends⟩, not_refuses_packet m env p r⟩
    have commands (r : Slot) (idle : (m.slot r).state = .empty) : (m.slot r).state = .empty := idle
    have answered (i : Fin simTransfersMax) (cId : ClientId) (reply : Bool)
        (busy : (m.hostTransfers i).state ≠ .empty)
        (idle : ((m.slot (.host i)).setRequest cId reply).state = .empty) :
        (m.slot (.host i)).state = .empty := by
      rcases (m.slot (.host i)).setRequest_state cId reply with cancel | active | same
      · rw [idle] at cancel
        cases cancel
      · rw [idle] at active
        cases active
      · exact absurd (same.symm.trans idle) busy
    cases handle_handled taken with
    | ignored =>
      refine ⟨.inl ⟨emptied_none commands commands, rfl⟩, ?_⟩
      rintro r (ends | refused)
      · exact absurd ends (neither r).1
      · exact absurd refused (neither r).2
    | requested i type idle named opened =>
      exact accounts_kept (s := .recv i) commands rfl (by simp) neither
    | valid i type => exact accounts_kept (s := .host i) commands rfl (by simp) neither
    | invalid i type => exact accounts_kept (s := .host i) commands rfl (by simp) neither
    | left i type none found =>
      have can := (cancels_canCancel (TransferArray.search_some found)).1
      have busy : (m.hostTransfers i).state ≠ .empty := by
        intro idle
        simp [ActiveTransfer.canCancel, idle] at can
      exact accounts_kept (s := .host i) commands rfl (answered i _ _ busy) neither
    | replied i type pending named =>
      exact accounts_kept (s := .host i) commands rfl (answered i _ _ (by simp [pending])) neither
    | written i type active named wrote =>
      exact accounts_kept (s := .recv i) commands rfl id neither
    | dropped i type found =>
      have can := (cancels_canCancel (TransferArray.search_some found)).1
      have busy : (m.recvTransfers i).state ≠ .empty := by
        intro idle
        simp [ActiveTransfer.canCancel, idle] at can
      refine accounts_emptied (s := .recv i) commands rfl busy rfl rfl
        (.stopped (neither _).1 (neither _).2) ?_
      rintro r (ends | refused)
      · exact absurd ends (neither r).1
      · exact absurd refused (neither r).2
    | completed i type found => exact absurd ⟨.recv i, env, p, rfl, type, found⟩ finished

theorem accounts_step (taken : m.step e = .ok next) : Accounts m e next := by
  cases e with
  | cmd cmd =>
    cases taken
    obtain ⟨recv, host⟩ := sendCmd_slots m cmd
    have same (r : Slot) : (m.sendCmd cmd).2.slot r = m.slot r := by
      cases r <;> simp only [slot, recv, host]
    have backlog : (m.sendCmd cmd).2.backlog = m.backlog := by
      unfold sendCmd
      split <;> rfl
    refine ⟨.inl ⟨emptied_none (fun _ idle => idle) fun r idle => same r ▸ idle, backlog⟩, ?_⟩
    rintro r (finished | refused)
    · cases r <;> simp [finishes, emission] at finished
    · simp [refuses, emission] at refused
  | work env p => exact accounts_work taken
  | packet env p => exact accounts_packet taken

/-- A slot that is emptied as its transfer is recorded COMPLETE has finished it. -/
theorem finishes_of_recorded {file : List UInt8} (taken : m.step e = .ok next)
    (gone : emptied m next s) (recorded : next.backlog = m.backlog ++ [⟨.complete, file⟩]) :
    m.finishes e s := by
  rcases (accounts_step taken).1 with ⟨none, -⟩ | ⟨r, state, one, backlog, outcome⟩
  · exact absurd gone (none s)
  · cases (one s).mp gone
    have same := List.append_cancel_left (backlog.symm.trans recorded)
    simp only [List.cons.injEq, BacklogEntry.mk.injEq] at same
    exact outcome.complete.mp same.1.1

/-- Along every run the backlog gains one entry for each slot that goes from
non-EMPTY to EMPTY, with its file and how its transfer ended, and no other. -/
theorem backlog_accounted (events : List ManagerEvent) : Guarded step accounted .init events :=
  .always (fun _ _ _ taken => accounts_step taken) _ _

end TransferManager

end Quickshare
