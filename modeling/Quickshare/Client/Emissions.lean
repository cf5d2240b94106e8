import Quickshare.Client.Moves

/-! What `do_work` makes of a slot. The slot whose turn it is emits the packet
of its state, so every emission can be read off the state the commands left. -/

namespace Quickshare

open Runs Bytes

/-! The types of the packets. -/

theorem Packet.type?_setHdr (p : Packet) (hdr : TransferHdr) :
    (p.setHdr hdr).type? = p.type? := by
  rw [Packet.type?, Mem.load, p.read_setHdr hdr (.inl (by decide)), ← Mem.load, ← Packet.type?]

namespace TransferManager

theorem cancelPacket_type (t : ActiveTransfer) (p : Packet) :
    (cancelPacket t p).type? = some .transferCancel := by
  rw [cancelPacket, Packet.type?_setHdr, Packet.type?_packetHdr]

theorem completePacket_type (t : ActiveTransfer) (p : Packet) :
    (completePacket t p).type? = some .transferComplete := by
  rw [completePacket, Packet.type?_storeInt64 _ _ (by decide), Packet.type?_packetHdr]

theorem replyPacket_type (t : ActiveTransfer) (p : Packet) :
    (replyPacket t p).type? = some .transferReply := by
  rw [replyPacket, Packet.type?_storeInt64 _ _ (by decide), Packet.type?_store _ _ _ (by decide),
    Packet.type?_packetHdr]

theorem replyPacket_accept (t : ActiveTransfer) (p : Packet) :
    (replyPacket t p).replyAccept = if t.state = .accept then 1 else 0 := by
  rw [replyPacket, Packet.replyAccept, Mem.storeInt64, Mem.load_store_apart _ (.inr (by decide)),
    Mem.load_store _ (by decide)]
  split <;> rfl

theorem requestPacket_type (t : ActiveTransfer) (p : Packet) :
    (requestPacket t p).type? = some .transferRequest := by
  unfold requestPacket
  rw [Packet.type?_setHdr, Packet.type?_store _ _ _ (by decide)]
  split
  · rw [Packet.type?_store _ _ _ (by decide), Packet.type?_write _ _ (by decide),
      Packet.type?_storeInt64 _ _ (by decide), Packet.type?_packetHdr]
  · rw [Packet.type?_write _ _ (by decide), Packet.type?_storeInt64 _ _ (by decide),
      Packet.type?_packetHdr]

end TransferManager

theorem readWork_type {f g : FileManager} {p q : Packet} {result : FRead}
    (done : f.readWork p result = .ok (.working, q, g)) : q.type? = some .transferData := by
  obtain ⟨block, stream, same⟩ := readWork_working done
  have type : (block.sendBlock stream p).1.type? = some .transferData := by
    rw [FileManager.sendBlock, Packet.type?_write _ _ (by decide), Packet.type?_store _ _ _ (by decide),
      Packet.type?_packetHdr]
  rwa [← same] at type

theorem dataPacket_type {f g : FileManager} {p q : Packet} {result : FRead} (id : TransferId)
    (done : f.readWork p result = .ok (.working, q, g)) :
    Packet.type? (q.storeInt64 8 id) = some .transferData :=
  (Packet.type?_storeInt64 _ _ (by decide)).trans (readWork_type done)

namespace ActiveTransfer

theorem answered_state (t : ActiveTransfer) (cId : ClientId) (reply : Bool) :
    (t.answered cId reply).state = t.state := by
  unfold answered
  split <;> rfl

/-- `set_request` only ever sets these two states. -/
theorem setRequest_state (t : ActiveTransfer) (cId : ClientId) (reply : Bool) :
    (t.setRequest cId reply).state = .cancel ∨ (t.setRequest cId reply).state = .active ∨
      (t.setRequest cId reply).state = t.state := by
  unfold setRequest
  dsimp only
  split
  · exact .inl rfl
  · split
    · exact .inr (.inl rfl)
    · exact .inr (.inr (t.answered_state cId reply))

end ActiveTransfer

namespace TransferManager

variable {m k next : TransferManager} {env : WorkEnv} {i j : Fin simTransfersMax}
variable {p packet : Packet} {work : WorkState}

/-! Host slots and commands. -/

/-- What the commands of one `process_cmds` do to a host slot. -/
inductive HostCommanded (t : ActiveTransfer) : ActiveTransfer → Prop
  | kept : HostCommanded t t
  | refused (idle : t.state = .empty) (f : FileManager) : HostCommanded t { t with fManager := f }
  | requested (idle : t.state = .empty) (f : FileManager) (size : Int64) (id : TransferId)
      (named : Fin transferClientsMax → ClientId) (now : Int) (path : List UInt8) :
      HostCommanded t { t with
        fManager := f
        fileSize := size
        localId := id
        hdr := { t.hdr with recipients := named }
        pastSend := now
        file := path
        state := .sendReq }
  | cancelled (can : t.canCancel = true) : HostCommanded t { t with state := .cancel }

theorem HostCommanded.refuse {t u : ActiveTransfer} (before : HostCommanded t u)
    (idle : u.state = .empty) (f : FileManager) : HostCommanded t { u with fManager := f } := by
  cases before with
  | kept => exact .refused idle f
  | refused first g => exact .refused first f
  | requested => cases idle
  | cancelled => cases idle

theorem HostCommanded.request {t u : ActiveTransfer} (before : HostCommanded t u)
    (idle : u.state = .empty) (f : FileManager) (size : Int64) (id : TransferId)
    (named : Fin transferClientsMax → ClientId) (now : Int) (path : List UInt8) :
    HostCommanded t { u with
      fManager := f
      fileSize := size
      localId := id
      hdr := { u.hdr with recipients := named }
      pastSend := now
      file := path
      state := .sendReq } := by
  cases before with
  | kept => exact .requested idle f size id named now path
  | refused first g => exact .requested first f size id named now path
  | requested => cases idle
  | cancelled => cases idle

theorem HostCommanded.cancel {t u : ActiveTransfer} (before : HostCommanded t u)
    (can : u.canCancel = true) : HostCommanded t { u with state := .cancel } := by
  cases before with
  | kept => exact .cancelled can
  | refused first g => simp [ActiveTransfer.canCancel, first] at can
  | requested => cases can
  | cancelled => cases can

theorem processCmds_host (m : TransferManager) (env : WorkEnv) :
    ∀ i, HostCommanded (m.hostTransfers i) ((m.processCmds env).hostTransfers i) := by
  refine processCmds_rule (P := fun k => ∀ i, HostCommanded (m.hostTransfers i) (k.hostTransfers i))
    m env (fun _ => .kept) (fun k cmd next _ held done i => ?_) fun k held => held
  cases done with
  | unmet => exact held i
  | @refused req f j idle =>
    by_cases here : i = j
    · subst here
      rw [modifyHost_self]
      exact (held i).refuse idle f
    · rw [modifyHost_of_ne _ _ here]
      exact held i
  | @requested req f j idle =>
    rw [nextId_hostTransfers]
    by_cases here : i = j
    · subst here
      rw [modifyHost_self]
      exact (held i).request idle f _ _ _ _ _
    · rw [modifyHost_of_ne _ _ here]
      exact held i
  | replied j => exact held i
  | cancelledRecv j => exact held i
  | cancelledHost j none found =>
    by_cases here : i = j
    · subst here
      rw [modifyHost_self]
      exact (held i).cancel (cancels_canCancel (TransferArray.search_some found)).1
    · rw [modifyHost_of_ne _ _ here]
      exact held i

/-! Slots and their packets. -/

/-- A slot of either array. -/
inductive Slot where
  | host (i : Fin simTransfersMax)
  | recv (i : Fin simTransfersMax)
  deriving DecidableEq

variable {r s : Slot}

def slot (m : TransferManager) : Slot → ActiveTransfer
  | .host i => m.hostTransfers i
  | .recv i => m.recvTransfers i

def modifySlot (m : TransferManager) : Slot → (ActiveTransfer → ActiveTransfer) → TransferManager
  | .host i, f => m.modifyHost i f
  | .recv i, f => m.modifyRecv i f

theorem nextId_slot (m : TransferManager) (s : Slot) : m.nextId.slot s = m.slot s := by
  cases s <;> rfl

theorem pushBacklog_slot (m : TransferManager) (state : InfoState) (file : List UInt8) (s : Slot) :
    (m.pushBacklog state file).slot s = m.slot s := by
  cases s <;> rfl

theorem modifySlot_self (m : TransferManager) (s : Slot) (f : ActiveTransfer → ActiveTransfer) :
    (m.modifySlot s f).slot s = f (m.slot s) := by
  cases s with
  | host i => exact m.modifyHost_self i f
  | recv i => exact m.modifyRecv_self i f

theorem modifySlot_of_ne (m : TransferManager) (f : ActiveTransfer → ActiveTransfer)
    (other : r ≠ s) : (m.modifySlot s f).slot r = m.slot r := by
  cases s with
  | host i =>
    cases r with
    | host j => exact m.modifyHost_of_ne f fun same => other (congrArg _ same)
    | recv j => rfl
  | recv i =>
    cases r with
    | host j => rfl
    | recv j => exact m.modifyRecv_of_ne f fun same => other (congrArg _ same)

/-- What holds of every slot still does when one changes and it holds there. -/
theorem modifySlot_forall {P : ActiveTransfer → Prop} {f : ActiveTransfer → ActiveTransfer}
    (all : ∀ r, P (m.slot r)) (here : P (f (m.slot s))) (r : Slot) : P ((m.modifySlot s f).slot r) := by
  by_cases same : r = s
  · subst same
    rwa [modifySlot_self]
  · rw [modifySlot_of_ne _ _ same]
    exact all r

theorem modifySlot_exists {P : ActiveTransfer → Prop} {f : ActiveTransfer → ActiveTransfer}
    (some : ∃ r, P (m.slot r)) (keeps : P (m.slot s) → P (f (m.slot s))) :
    ∃ r, P ((m.modifySlot s f).slot r) := by
  obtain ⟨r, held⟩ := some
  refine ⟨r, ?_⟩
  by_cases same : r = s
  · subst same
    rw [modifySlot_self]
    exact keeps held
  · rwa [modifySlot_of_ne _ _ same]

/-- The slot `do_work` finds work for: a receive slot only when no host slot has any. -/
def worker (m : TransferManager) : Option Slot :=
  match m.hostTransfers.search hostWorks with
  | some i => some (.host i)
  | none => (m.recvTransfers.search recvWorks).map .recv

/-- The packet this event emits, and the slot it is from. -/
def emission (m : TransferManager) : ManagerEvent → Option (Slot × Packet)
  | .work env p => match m.doWork env p, (m.processCmds env).worker with
    | .ok (.hasWork, q, _), some s => some (s, q)
    | _, _ => none
  | _ => none

/-- What `do_work` does once the commands have run, and what it emits. -/
inductive Worked (m : TransferManager) (env : WorkEnv) (p : Packet) :
    Option (Slot × Packet) → TransferManager → Prop
  | nothing : Worked m env p none m
  | request (i : Fin simTransfersMax) (asked : (m.hostTransfers i).state = .sendReq) :
      Worked m env p (some (.host i, requestPacket (m.hostTransfers i) p))
        (m.modifyHost i fun t => { t with state := .getResponse })
  | cancelHost (i : Fin simTransfersMax) (cancelled : (m.hostTransfers i).state = .cancel) :
      Worked m env p (some (.host i, cancelPacket (m.hostTransfers i) p))
        ((m.modifyHost i ActiveTransfer.zeroed).pushBacklog .cancelled (m.hostTransfers i).file)
  | data (i : Fin simTransfersMax) (active : (m.hostTransfers i).state = .active)
      (read : (m.hostTransfers i).fManager.readWork p env.fread = .ok (.working, q, f)) :
      Worked m env p (some (.host i, q.storeInt64 8 (m.hostTransfers i).hdr.tId))
        (m.modifyHost i fun t => { t with fManager := f, pastSend := env.later })
  | complete (i : Fin simTransfersMax) (active : (m.hostTransfers i).state = .active)
      (read : (m.hostTransfers i).fManager.readWork p env.fread = .ok (.complete, q, f)) :
      Worked m env p (some (.host i, completePacket (m.hostTransfers i) q))
        ((m.modifyHost i fun t => { { t with fManager := f.close }.zeroed with
          pastSend := env.later }).pushBacklog .complete (m.hostTransfers i).file)
  | failed (i : Fin simTransfersMax) (active : (m.hostTransfers i).state = .active)
      (ripe : ¬ (env.now - (m.hostTransfers i).pastSend).tdiv 1000000 < 1)
      (read : (m.hostTransfers i).fManager.readWork p env.fread = .ok (state, q, f))
      (stopped : state = .error ∨ state = .empty) :
      Worked m env p (some (.host i, cancelPacket (m.hostTransfers i) q))
        ((m.modifyHost i fun t => { { t with fManager := f }.zeroed with
          pastSend := env.later }).pushBacklog .cancelled (m.hostTransfers i).file)
  | cancelRecv (i : Fin simTransfersMax) (cancelled : (m.recvTransfers i).state = .cancel) :
      Worked m env p (some (.recv i, cancelPacket (m.recvTransfers i) p))
        ((m.modifyRecv i ActiveTransfer.zeroed).pushBacklog .cancelled (m.recvTransfers i).file)
  | accept (i : Fin simTransfersMax) (accepted : (m.recvTransfers i).state = .accept) :
      Worked m env p (some (.recv i, replyPacket (m.recvTransfers i) p))
        (m.modifyRecv i fun t => { t with state := .active })
  | deny (i : Fin simTransfersMax) (denied : (m.recvTransfers i).state = .deny) :
      Worked m env p (some (.recv i, replyPacket (m.recvTransfers i) p))
        ((m.modifyRecv i ActiveTransfer.zeroed).pushBacklog .denied (m.recvTransfers i).file)

theorem emission_eq {s : Slot} (done : m.doWork env p = .ok (work, packet, next))
    (turn : (m.processCmds env).worker = some s) :
    m.emission (.work env p) = if work = .hasWork then some (s, packet) else none := by
  simp only [emission, done, turn]
  cases work <;> rfl

theorem emission_worker {s : Slot} (emits : m.emission (.work env p) = some (s, packet)) :
    (m.processCmds env).worker = some s := by
  cases turn : (m.processCmds env).worker with
  | none => simp [emission, turn] at emits
  | some r =>
    cases done : m.doWork env p with
    | error fault => simp [emission, done] at emits
    | ok result =>
      obtain ⟨work, q, next⟩ := result
      rw [emission_eq done turn] at emits
      split at emits
      · cases emits
        rfl
      · cases emits

/-- Only a `do_work` that returns emits a packet. -/
theorem emission_step {e : ManagerEvent} {r : Slot × Packet} (emits : m.emission e = some r) :
    ∃ env p next, e = .work env p ∧ m.step e = .ok next := by
  cases e with
  | cmd cmd => cases emits
  | packet env p => cases emits
  | work env p =>
    cases done : m.doWork env p with
    | error fault => simp [emission, done] at emits
    | ok result =>
      obtain ⟨work, q, next⟩ := result
      refine ⟨env, p, next, rfl, ?_⟩
      simp only [step, done]
      rfl

theorem step_worked (taken : m.step (.work env p) = .ok next) :
    Worked (m.processCmds env) env p (m.emission (.work env p)) next := by
  obtain ⟨work, packet, done⟩ := step_work taken
  have turnHost {i : Fin simTransfersMax}
      (found : (m.processCmds env).hostTransfers.search hostWorks = some i) :
      (m.processCmds env).worker = some (.host i) := by
    simp only [worker, found]
  have turnRecv {i : Fin simTransfersMax}
      (absent : (m.processCmds env).hostTransfers.search hostWorks = none)
      (found : (m.processCmds env).recvTransfers.search recvWorks = some i) :
      (m.processCmds env).worker = some (.recv i) := by
    simp only [worker, absent, found, Option.map_some]
  rcases doWork_worked done with ⟨worked, busy⟩ | ⟨absent, worked⟩
  · cases worked with
    | idle => exact absurd rfl busy
    | wait i found =>
      rw [emission_eq done (turnHost found), if_neg (by simp)]
      exact .nothing
    | request i found asked =>
      rw [emission_eq done (turnHost found), if_pos rfl]
      exact .request i asked
    | cancel i found cancelled =>
      rw [emission_eq done (turnHost found), if_pos rfl]
      exact .cancelHost i cancelled
    | data i found active read =>
      rw [emission_eq done (turnHost found), if_pos rfl]
      exact .data i active read
    | complete i found active read =>
      rw [emission_eq done (turnHost found), if_pos rfl]
      exact .complete i active read
    | failed i found active ripe read stopped =>
      rw [emission_eq done (turnHost found), if_pos rfl]
      exact .failed i active ripe read stopped
  · cases worked with
    | idle none =>
      have idle : (m.processCmds env).worker = Option.none := by
        simp only [worker, absent, none, Option.map_none]
      have silent : m.emission (.work env p) = Option.none := by
        simp only [emission, done, idle]
      rw [silent]
      exact .nothing
    | cancel i found cancelled =>
      rw [emission_eq done (turnRecv absent found), if_pos rfl]
      exact .cancelRecv i cancelled
    | accept i found accepted =>
      rw [emission_eq done (turnRecv absent found), if_pos rfl]
      exact .accept i accepted
    | deny i found denied =>
      rw [emission_eq done (turnRecv absent found), if_pos rfl]
      exact .deny i denied

end TransferManager

end Quickshare
