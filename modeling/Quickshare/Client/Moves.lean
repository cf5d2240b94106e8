import Quickshare.Client.Packets

/-! What the transfer manager may do, function by function. Each function finds
at most one slot and changes that slot; everything proved of the client's
transfers is read off these cases. -/

namespace Quickshare

open Runs Bytes

/-- What happens to `Transfer_Manager`: the user queues a command, the network
thread calls `do_work`, or a packet of the server arrives. -/
inductive ManagerEvent where
  | cmd (cmd : TransferCmd)
  | work (env : WorkEnv) (packet : Packet)
  | packet (env : PacketEnv) (p : Packet)

namespace TransferArray

variable {ts : TransferArray} {p : ActiveTransfer → Bool} {i j : Fin simTransfersMax}

theorem modify_self (ts : TransferArray) (i : Fin simTransfersMax)
    (f : ActiveTransfer → ActiveTransfer) : ts.modify i f i = f (ts i) :=
  Function.update_self ..

theorem modify_of_ne (ts : TransferArray) (f : ActiveTransfer → ActiveTransfer) (other : j ≠ i) :
    ts.modify i f j = ts j :=
  Function.update_of_ne other ..

theorem modify_modify (ts : TransferArray) (i : Fin simTransfersMax)
    (f g : ActiveTransfer → ActiveTransfer) : (ts.modify i f).modify i g = ts.modify i (g ∘ f) := by
  simp [modify]

theorem search_some (found : ts.search p = some i) : p (ts i) = true :=
  List.find?_some (p := fun i => p (ts i)) found

theorem search_none (missing : ts.search p = none) (i : Fin simTransfersMax) : p (ts i) = false := by
  have absent := List.find?_eq_none.mp missing i (List.mem_finRange i)
  simpa using absent

end TransferArray

namespace TransferManager

variable {m k next : TransferManager} {env : WorkEnv} {i j : Fin simTransfersMax}
variable {p packet : Packet} {work : WorkState}

theorem modifyHost_self (m : TransferManager) (i : Fin simTransfersMax)
    (f : ActiveTransfer → ActiveTransfer) :
    (m.modifyHost i f).hostTransfers i = f (m.hostTransfers i) :=
  m.hostTransfers.modify_self i f

theorem modifyHost_of_ne (m : TransferManager) (f : ActiveTransfer → ActiveTransfer)
    (other : j ≠ i) : (m.modifyHost i f).hostTransfers j = m.hostTransfers j :=
  m.hostTransfers.modify_of_ne f other

theorem modifyRecv_self (m : TransferManager) (i : Fin simTransfersMax)
    (f : ActiveTransfer → ActiveTransfer) :
    (m.modifyRecv i f).recvTransfers i = f (m.recvTransfers i) :=
  m.recvTransfers.modify_self i f

theorem modifyRecv_of_ne (m : TransferManager) (f : ActiveTransfer → ActiveTransfer)
    (other : j ≠ i) : (m.modifyRecv i f).recvTransfers j = m.recvTransfers j :=
  m.recvTransfers.modify_of_ne f other

/-- One event of `Transfer_Manager`. -/
def step (m : TransferManager) : ManagerEvent → Except Abort TransferManager
  | .cmd cmd => .ok (m.sendCmd cmd).2
  | .work env packet => (m.doWork env packet).map fun r => r.2.2
  | .packet env p => m.handle env p

/-- One more client transfer id is taken. -/
def nextId (m : TransferManager) : TransferManager :=
  { m with clientTransferIds := m.clientTransferIds + 1 }

@[simp] theorem nextId_hostTransfers (m : TransferManager) :
    m.nextId.hostTransfers = m.hostTransfers := rfl

@[simp] theorem nextId_recvTransfers (m : TransferManager) :
    m.nextId.recvTransfers = m.recvTransfers := rfl

@[simp] theorem pushBacklog_hostTransfers (m : TransferManager) (state : InfoState)
    (file : List UInt8) : (m.pushBacklog state file).hostTransfers = m.hostTransfers := rfl

@[simp] theorem pushBacklog_recvTransfers (m : TransferManager) (state : InfoState)
    (file : List UInt8) : (m.pushBacklog state file).recvTransfers = m.recvTransfers := rfl

/-- What one command does. -/
inductive Commanded (m : TransferManager) (env : WorkEnv) : TransferCmd → TransferManager → Prop
  | unmet : Commanded m env cmd m
  | refused (i : Fin simTransfersMax) (idle : (m.hostTransfers i).state = .empty)
      (failed : (m.hostTransfers i).fManager.readFile (TransferCmd.path req)
        (env.files (TransferCmd.path req)) = (false, f)) :
      Commanded m env (.request req) (m.modifyHost i fun t => { t with fManager := f })
  | requested (i : Fin simTransfersMax) (idle : (m.hostTransfers i).state = .empty)
      (opened : (m.hostTransfers i).fManager.readFile (TransferCmd.path req)
        (env.files (TransferCmd.path req)) = (true, f)) :
      Commanded m env (.request req) (m.modifyHost i fun t => { t with
        fManager := f
        fileSize := f.fileSize.toUInt64.toInt64
        localId := m.clientTransferIds
        hdr := { t.hdr with recipients := TransferCmd.recipients req }
        pastSend := env.now
        file := TransferCmd.path req
        state := .sendReq }).nextId
  | replied (i : Fin simTransfersMax) (asked : (m.recvTransfers i).state = .getResponse)
      (named : (m.recvTransfers i).hdr.tId = tId) :
      Commanded m env (.reply tId reply)
        (m.modifyRecv i fun t => { t with state := if reply then .accept else .deny })
  | cancelledRecv (i : Fin simTransfersMax) (found : m.recvTransfers.search (cancels tId) = some i) :
      Commanded m env (.cancel tId) (m.modifyRecv i fun t => { t with state := .cancel })
  | cancelledHost (i : Fin simTransfersMax) (none : m.recvTransfers.search (cancels tId) = none)
      (found : m.hostTransfers.search (cancels tId) = some i) :
      Commanded m env (.cancel tId) (m.modifyHost i fun t => { t with state := .cancel })

theorem processCmd_commanded (env : WorkEnv) (m : TransferManager) (cmd : TransferCmd) :
    Commanded m env cmd (processCmd env m cmd) := by
  cases cmd with
  | request req =>
    simp only [processCmd, cmdHostRequest]
    cases found : getTransfer m.hostTransfers with
    | none => exact .unmet
    | some i =>
      have idle : (m.hostTransfers i).state = .empty := by
        simpa using TransferArray.search_some found
      cases opened : (m.hostTransfers i).fManager.readFile (TransferCmd.path req)
          (env.files (TransferCmd.path req)) with
      | mk success f =>
        cases success with
        | false =>
          simp only [opened]
          exact .refused i idle opened
        | true =>
          simp only [opened]
          exact .requested i idle opened
  | reply tId reply =>
    simp only [processCmd, cmdRecvRequestReply]
    split
    · exact .unmet
    · rename_i i found
      have here : (m.recvTransfers i).state = .getResponse ∧ (m.recvTransfers i).hdr.tId = tId := by
        simpa using TransferArray.search_some found
      exact .replied i here.1 here.2
  | cancel tId =>
    simp only [processCmd, cmdCancel]
    split
    · rename_i i found
      exact .cancelledRecv i found
    · rename_i none
      split
      · rename_i i found
        exact .cancelledHost i none found
      · exact .unmet

/-- What every command keeps is kept by `process_cmds`. -/
theorem processCmds_rule {P : TransferManager → Prop} (m : TransferManager) (env : WorkEnv)
    (start : P m) (keep : ∀ k cmd next, cmd ∈ m.cmdQueue → P k → Commanded k env cmd next → P next)
    (popped : ∀ k, P k → P { k with cmdQueue := [] }) : P (m.processCmds env) := by
  have fold (cmds : List TransferCmd) (inside : ∀ cmd ∈ cmds, cmd ∈ m.cmdQueue)
      (k : TransferManager) (held : P k) : P (cmds.foldl (processCmd env) k) := by
    induction cmds generalizing k with
    | nil => exact held
    | cons cmd rest ih =>
      rw [List.foldl_cons]
      have here := keep k cmd _ (inside cmd (List.mem_cons_self ..)) held
        (processCmd_commanded env k cmd)
      exact ih (fun c member => inside c (List.mem_cons_of_mem _ member)) _ here
  exact popped _ (fold m.cmdQueue (fun _ member => member) m start)

/-- What the commands of one `process_cmds` do to a receive slot. -/
inductive RecvCommanded (t : ActiveTransfer) : ActiveTransfer → Prop
  | kept : RecvCommanded t t
  | replied (asked : t.state = .getResponse) (reply : Bool) :
      RecvCommanded t { t with state := if reply then .accept else .deny }
  | cancelled (can : t.canCancel = true) : RecvCommanded t { t with state := .cancel }

theorem cancels_canCancel {t : ActiveTransfer} {tId : TransferId} (found : cancels tId t = true) :
    t.canCancel = true ∧ tId = t.hdr.tId := by
  simpa [cancels] using found

/-- A slot answered or cancelled is out of reach of the next command. -/
theorem RecvCommanded.reply {t u : ActiveTransfer} (before : RecvCommanded t u)
    (asked : u.state = .getResponse) (reply : Bool) :
    RecvCommanded t { u with state := if reply then .accept else .deny } := by
  cases before with
  | kept => exact .replied asked reply
  | replied _ first => cases first <;> cases asked
  | cancelled _ => cases asked

theorem RecvCommanded.cancel {t u : ActiveTransfer} (before : RecvCommanded t u)
    (can : u.canCancel = true) : RecvCommanded t { u with state := .cancel } := by
  cases before with
  | kept => exact .cancelled can
  | replied _ first => cases first <;> cases can
  | cancelled _ => cases can

theorem processCmds_recv (m : TransferManager) (env : WorkEnv) :
    ∀ i, RecvCommanded (m.recvTransfers i) ((m.processCmds env).recvTransfers i) := by
  refine processCmds_rule (P := fun k => ∀ i, RecvCommanded (m.recvTransfers i) (k.recvTransfers i))
    m env (fun _ => .kept) (fun k cmd next _ held done i => ?_) fun k held => held
  cases done with
  | unmet => exact held i
  | refused j => exact held i
  | requested j => exact held i
  | @replied tId reply j asked =>
    by_cases here : i = j
    · subst here
      rw [modifyRecv_self]
      exact (held i).reply asked reply
    · rw [modifyRecv_of_ne _ _ here]
      exact held i
  | cancelledRecv j found =>
    by_cases here : i = j
    · subst here
      rw [modifyRecv_self]
      exact (held i).cancel (cancels_canCancel (TransferArray.search_some found)).1
    · rw [modifyRecv_of_ne _ _ here]
      exact held i
  | cancelledHost j => exact held i

/-- What `host_transfer_work` does, and the packet it makes. -/
inductive HostWorked (m : TransferManager) (env : WorkEnv) (p : Packet) :
    WorkState → Packet → TransferManager → Prop
  | idle (none : m.hostTransfers.search hostWorks = none) : HostWorked m env p .noWork p m
  | wait (i : Fin simTransfersMax) (found : m.hostTransfers.search hostWorks = some i)
      (active : (m.hostTransfers i).state = .active)
      (early : (env.now - (m.hostTransfers i).pastSend).tdiv 1000000 < 1) :
      HostWorked m env p .waitWork p m
  | request (i : Fin simTransfersMax) (found : m.hostTransfers.search hostWorks = some i)
      (asked : (m.hostTransfers i).state = .sendReq) :
      HostWorked m env p .hasWork (requestPacket (m.hostTransfers i) p)
        (m.modifyHost i fun t => { t with state := .getResponse })
  | cancel (i : Fin simTransfersMax) (found : m.hostTransfers.search hostWorks = some i)
      (cancelled : (m.hostTransfers i).state = .cancel) :
      HostWorked m env p .hasWork (cancelPacket (m.hostTransfers i) p)
        ((m.modifyHost i ActiveTransfer.zeroed).pushBacklog .cancelled (m.hostTransfers i).file)
  | data (i : Fin simTransfersMax) (found : m.hostTransfers.search hostWorks = some i)
      (active : (m.hostTransfers i).state = .active)
      (read : (m.hostTransfers i).fManager.readWork p env.fread = .ok (.working, q, f)) :
      HostWorked m env p .hasWork (q.storeInt64 8 (m.hostTransfers i).hdr.tId)
        (m.modifyHost i fun t => { t with fManager := f, pastSend := env.later })
  | complete (i : Fin simTransfersMax) (found : m.hostTransfers.search hostWorks = some i)
      (active : (m.hostTransfers i).state = .active)
      (read : (m.hostTransfers i).fManager.readWork p env.fread = .ok (.complete, q, f)) :
      HostWorked m env p .hasWork (completePacket (m.hostTransfers i) q)
        ((m.modifyHost i fun t => { { t with fManager := f.close }.zeroed with
          pastSend := env.later }).pushBacklog .complete (m.hostTransfers i).file)
  | failed (i : Fin simTransfersMax) (found : m.hostTransfers.search hostWorks = some i)
      (active : (m.hostTransfers i).state = .active)
      (ripe : ¬ (env.now - (m.hostTransfers i).pastSend).tdiv 1000000 < 1)
      (read : (m.hostTransfers i).fManager.readWork p env.fread = .ok (state, q, f))
      (stopped : state = .error ∨ state = .empty) :
      HostWorked m env p .hasWork (cancelPacket (m.hostTransfers i) q)
        ((m.modifyHost i fun t => { { t with fManager := f }.zeroed with
          pastSend := env.later }).pushBacklog .cancelled (m.hostTransfers i).file)

/-- Changes of one host slot one after the other. -/
theorem modifyHost_modifyHost (m : TransferManager) (i : Fin simTransfersMax)
    (f g : ActiveTransfer → ActiveTransfer) :
    (m.modifyHost i f).modifyHost i g = m.modifyHost i (g ∘ f) := by
  simp only [modifyHost, TransferArray.modify_modify]

theorem modifyHost_pushBacklog (m : TransferManager) (i : Fin simTransfersMax)
    (f : ActiveTransfer → ActiveTransfer) (state : InfoState) (file : List UInt8) :
    (m.pushBacklog state file).modifyHost i f = (m.modifyHost i f).pushBacklog state file := rfl

theorem sendData_worked (found : m.hostTransfers.search hostWorks = some i)
    (active : (m.hostTransfers i).state = .active)
    (done : m.sendData env i p = .ok (work, packet, next)) : HostWorked m env p work packet next := by
  unfold sendData at done
  split at done
  · rename_i early
    cases done
    exact .wait i found active early
  · rename_i ripe
    obtain ⟨⟨state, q, f⟩, read, done⟩ := bind_ok done
    simp only [pure, Except.pure, Except.ok.injEq, Prod.mk.injEq] at done
    obtain ⟨rfl, rfl, rfl⟩ := done
    have hdr : ((m.modifyHost i fun t => { t with fManager := f }).hostTransfers i) =
        { m.hostTransfers i with fManager := f } := m.modifyHost_self i _
    cases state with
    | working =>
      simp only [sendRead, hdr, modifyHost_modifyHost]
      exact .data i found active read
    | complete =>
      have packets : completePacket { m.hostTransfers i with fManager := f } q =
          completePacket (m.hostTransfers i) q := rfl
      simp only [sendRead, hdr, packets, modifyHost_pushBacklog,
        modifyHost_modifyHost]
      exact .complete i found active read
    | error =>
      have packets : cancelPacket { m.hostTransfers i with fManager := f } q =
          cancelPacket (m.hostTransfers i) q := rfl
      simp only [sendRead, sendCancelHost, hdr, packets, modifyHost_pushBacklog,
        modifyHost_modifyHost]
      exact .failed i found active ripe read (.inl rfl)
    | empty =>
      have packets : cancelPacket { m.hostTransfers i with fManager := f } q =
          cancelPacket (m.hostTransfers i) q := rfl
      simp only [sendRead, sendCancelHost, hdr, packets, modifyHost_pushBacklog,
        modifyHost_modifyHost]
      exact .failed i found active ripe read (.inr rfl)

theorem hostTransferWork_worked (done : m.hostTransferWork env p = .ok (work, packet, next)) :
    HostWorked m env p work packet next := by
  unfold hostTransferWork at done
  split at done
  · rename_i none
    cases done
    exact .idle none
  · rename_i i found
    have works := TransferArray.search_some found
    split at done
    · rename_i active
      exact sendData_worked found active done
    · rename_i cancelled
      cases done
      exact .cancel i found cancelled
    · rename_i inactive uncancelled
      cases done
      simp only [hostWorks, decide_eq_true_eq] at works
      rcases works with active | cancelled | asked
      · exact absurd active inactive
      · exact absurd cancelled uncancelled
      · exact .request i found asked

/-- Host slots work without the receive slots. -/
theorem HostWorked.recv (worked : HostWorked m env p work packet next) :
    next.recvTransfers = m.recvTransfers := by
  cases worked <;> rfl

/-- What `recv_transfer_work` does, and the packet it makes. -/
inductive RecvWorked (m : TransferManager) (p : Packet) :
    WorkState → Packet → TransferManager → Prop
  | idle (none : m.recvTransfers.search recvWorks = none) : RecvWorked m p .noWork p m
  | cancel (i : Fin simTransfersMax) (found : m.recvTransfers.search recvWorks = some i)
      (cancelled : (m.recvTransfers i).state = .cancel) :
      RecvWorked m p .hasWork (cancelPacket (m.recvTransfers i) p)
        ((m.modifyRecv i ActiveTransfer.zeroed).pushBacklog .cancelled (m.recvTransfers i).file)
  | accept (i : Fin simTransfersMax) (found : m.recvTransfers.search recvWorks = some i)
      (accepted : (m.recvTransfers i).state = .accept) :
      RecvWorked m p .hasWork (replyPacket (m.recvTransfers i) p)
        (m.modifyRecv i fun t => { t with state := .active })
  | deny (i : Fin simTransfersMax) (found : m.recvTransfers.search recvWorks = some i)
      (denied : (m.recvTransfers i).state = .deny) :
      RecvWorked m p .hasWork (replyPacket (m.recvTransfers i) p)
        ((m.modifyRecv i ActiveTransfer.zeroed).pushBacklog .denied (m.recvTransfers i).file)

theorem recvTransferWork_worked (done : m.recvTransferWork p = (work, packet, next)) :
    RecvWorked m p work packet next := by
  unfold recvTransferWork at done
  split at done
  · rename_i none
    cases done
    exact .idle none
  · rename_i i found
    have works := TransferArray.search_some found
    simp only [recvWorks, decide_eq_true_eq] at works
    split at done
    · rename_i cancelled
      cases done
      exact .cancel i found cancelled
    · rename_i uncancelled
      simp only [sendRecvRequestReply] at done
      rcases works with cancelled | accepted | denied
      · exact absurd cancelled uncancelled
      · rw [if_pos accepted] at done
        cases done
        exact .accept i found accepted
      · have unaccepted : (m.recvTransfers i).state ≠ .accept := by simp [denied]
        rw [if_neg unaccepted] at done
        cases done
        exact .deny i found denied

theorem RecvWorked.host (worked : RecvWorked m p work packet next) :
    next.hostTransfers = m.hostTransfers := by
  cases worked <;> rfl

/-- `do_work` runs the commands, and a receive slot only gets its turn when no
host slot has work. -/
theorem doWork_worked (done : m.doWork env p = .ok (work, packet, next)) :
    (HostWorked (m.processCmds env) env p work packet next ∧ work ≠ .noWork) ∨
      (((m.processCmds env).hostTransfers.search hostWorks = none) ∧
        RecvWorked (m.processCmds env) p work packet next) := by
  obtain ⟨⟨host, q, k⟩, worked, done⟩ := bind_ok done
  have hosted := hostTransferWork_worked worked
  dsimp only at done
  split at done
  · rename_i idle
    subst idle
    cases hosted with
    | idle none => exact .inr ⟨none, recvTransferWork_worked (Except.ok.inj done)⟩
  · rename_i busy
    cases done
    exact .inl ⟨hosted, busy⟩

theorem step_work {env : WorkEnv} {q : Packet} (taken : m.step (.work env q) = .ok next) :
    ∃ work packet, m.doWork env q = .ok (work, packet, next) := by
  simp only [step] at taken
  cases done : m.doWork env q with
  | error fault => simp [done, Except.map] at taken
  | ok r =>
    obtain ⟨work, packet, k⟩ := r
    rw [done] at taken
    cases taken
    exact ⟨work, packet, rfl⟩

theorem sendCmd_slots (m : TransferManager) (cmd : TransferCmd) :
    (m.sendCmd cmd).2.recvTransfers = m.recvTransfers ∧
      (m.sendCmd cmd).2.hostTransfers = m.hostTransfers := by
  unfold sendCmd
  split <;> exact ⟨rfl, rfl⟩

/-- The slot a complete of `tId` means. -/
def completes (tId : TransferId) (t : ActiveTransfer) : Bool := t.state = .active ∧ tId = t.hdr.tId

/-- What a packet of the server does. -/
inductive PacketHandled (m : TransferManager) (env : PacketEnv) (p : Packet) :
    TransferManager → Prop
  | ignored : PacketHandled m env p m
  | requested (i : Fin simTransfersMax) (type : p.type? = some .transferRequest)
      (idle : (m.recvTransfers i).state = .empty) (named : requestFileName p = some name)
      (opened : (m.recvTransfers i).fManager.writeFile name p.fileSize env.target = (true, f)) :
      PacketHandled m env p (m.modifyRecv i fun t => { t with
        fManager := f
        hdr := p.hdr
        file := name
        state := .getResponse })
  | valid (i : Fin simTransfersMax) (type : p.type? = some .transferValid)
      (waits : (m.hostTransfers i).state = .getResponse)
      (own : (m.hostTransfers i).localId = p.clientTransferId) :
      PacketHandled m env p (m.modifyHost i fun t => { t with hdr := p.hdr, state := .pending })
  | invalid (i : Fin simTransfersMax) (type : p.type? = some .transferInvalid)
      (waits : (m.hostTransfers i).state = .getResponse)
      (own : (m.hostTransfers i).localId = p.clientTransferId) :
      PacketHandled m env p (m.modifyHost i fun t => { t with state := .cancel })
  | dropped (i : Fin simTransfersMax) (type : p.type? = some .transferCancel)
      (found : m.recvTransfers.search (cancels p.tId) = some i) :
      PacketHandled m env p
        ((m.modifyRecv i ActiveTransfer.zeroed).pushBacklog .cancelled (m.recvTransfers i).file)
  | left (i : Fin simTransfersMax) (type : p.type? = some .transferCancel)
      (none : m.recvTransfers.search (cancels p.tId) = none)
      (found : m.hostTransfers.search (cancels p.tId) = some i) :
      PacketHandled m env p (m.modifyHost i (·.setRequest p.hdrFrom false))
  | replied (i : Fin simTransfersMax) (type : p.type? = some .transferReply)
      (pending : (m.hostTransfers i).state = .pending)
      (named : (m.hostTransfers i).hdr.tId = p.tId) :
      PacketHandled m env p (m.modifyHost i (·.setRequest p.hdrFrom (p.replyAccept ≠ 0)))
  | written (i : Fin simTransfersMax) (type : p.type? = some .transferData)
      (active : (m.recvTransfers i).state = .active)
      (named : p.tId = (m.recvTransfers i).hdr.tId)
      (wrote : (m.recvTransfers i).fManager.writeWork p env.fwrite = .ok f) :
      PacketHandled m env p (m.modifyRecv i fun t => { t with fManager := f })
  | completed (i : Fin simTransfersMax) (type : p.type? = some .transferComplete)
      (found : m.recvTransfers.search (completes p.tId) = some i) :
      PacketHandled m env p ((m.modifyRecv i fun t => { t with
        fManager := t.fManager.close }.zeroed).pushBacklog .complete (m.recvTransfers i).file)

theorem createRecvRequest_handled {env : PacketEnv} (type : p.type? = some .transferRequest)
    (done : m.createRecvRequest p env.target = .ok (true, next)) : PacketHandled m env p next := by
  unfold createRecvRequest at done
  split at done
  · cases done
  · split at done <;> cases done
  · rename_i i name found named
    have idle : (m.recvTransfers i).state = .empty := by
      simpa using TransferArray.search_some found
    cases opened : (m.recvTransfers i).fManager.writeFile name p.fileSize env.target with
    | mk success f =>
      simp only [opened] at done
      cases success with
      | false => cases done
      | true =>
        cases done
        exact .requested i type idle named opened

theorem handle_handled {env : PacketEnv} (done : m.handle env p = .ok next) :
    PacketHandled m env p next := by
  unfold handle at done
  split at done
  · rename_i type
    obtain ⟨⟨created, k⟩, made, done⟩ := bind_ok done
    cases created with
    | false => cases done
    | true =>
      cases done
      exact createRecvRequest_handled type made
  · rename_i type
    cases done
    unfold hostRequestValid
    split
    · exact .ignored
    · rename_i i found
      have here := TransferArray.search_some found
      simp only [decide_eq_true_eq] at here
      exact .valid i type here.1 here.2
  · rename_i type
    cases done
    unfold hostRequestValid
    split
    · exact .ignored
    · rename_i i found
      have here := TransferArray.search_some found
      simp only [decide_eq_true_eq] at here
      exact .invalid i type here.1 here.2
  · rename_i type
    cases done
    unfold recvCancel
    split
    · rename_i i found
      exact .dropped i type found
    · rename_i none
      split
      · rename_i i found
        exact .left i type none found
      · exact .ignored
  · rename_i type
    cases done
    unfold hostRequestReply
    split
    · exact .ignored
    · rename_i i found
      have here := TransferArray.search_some found
      simp only [decide_eq_true_eq] at here
      exact .replied i type here.1 here.2
  · rename_i type
    unfold recvData at done
    split at done
    · cases done
      exact .ignored
    · rename_i i found
      have here := TransferArray.search_some found
      simp only [decide_eq_true_eq] at here
      obtain ⟨f, wrote, done⟩ := bind_ok done
      cases done
      exact .written i type here.1 here.2 wrote
  · rename_i type
    cases done
    unfold recvComplete
    split
    · exact .ignored
    · rename_i i found
      exact .completed i type found
  · cases done
    exact .ignored

end TransferManager

end Quickshare
