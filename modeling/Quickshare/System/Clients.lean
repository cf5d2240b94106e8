import Quickshare.Client.Conformance
import Quickshare.Lib.RelayParties
import Quickshare.System.Files

/-! What each step of a client does to its side of every transfer. -/

namespace Quickshare

open Bytes Runs Relay

namespace ActiveTransfer

/-- The server has not granted the request of the slot. -/
def asking (a : ActiveTransfer) : Bool := a.state = .sendReq ∨ a.state = .getResponse

/-- A slot that hosts, or is to host, has its file at hand. -/
structure Supplied (a : ActiveTransfer) : Prop where
  ready : a.hosting = true ∨ a.asking = true → a.fManager.Ready
  fresh : a.state = .empty ∨ a.asking = true → a.Fresh
  unread : a.asking = true → a.fManager.Unread

structure Receives (a : ActiveTransfer) : Prop where
  known : a.receiving = true → a.hdr.tId ≠ 0
  storing : a.receiving = true → a.fManager.Storing

variable {a b : ActiveTransfer} {t : TransferId} {source : List UInt8}

theorem hostView_isSome : (a.hostView t).isSome ↔ a.hosting = true ∧ a.hdr.tId = t := by
  unfold hostView
  split <;> simp_all

theorem recvView_isSome : (a.recvView t source).isSome ↔ a.receiving = true ∧ a.hdr.tId = t := by
  unfold recvView
  split <;> simp_all

theorem hostView_idle (idle : a.hosting = false) : a.hostView t = none := by
  simp [hostView, idle]

theorem recvView_idle (idle : a.receiving = false) : a.recvView t source = none := by
  simp [recvView, idle]

theorem Supplied.idle (idle : a.hosting = false) (unasked : a.asking = false)
    (fresh : a.state = .empty → a.Fresh) : a.Supplied where
  ready some := by simp [idle, unasked] at some
  fresh some := by
    rcases some with empty | asking
    · exact fresh empty
    · simp [unasked] at asking
  unread asking := by simp [unasked] at asking

/-- A slot whose request has been granted. -/
theorem Supplied.granted (unasked : a.asking = false) (busy : a.state ≠ .empty)
    (ready : a.hosting = true → a.fManager.Ready) : a.Supplied where
  ready some := ready (some.resolve_right (by simp [unasked]))
  fresh some := absurd some (by simp [busy, unasked])
  unread asking := by simp [unasked] at asking

theorem Receives.idle (idle : a.receiving = false) : a.Receives where
  known some := by simp [idle] at some
  storing some := by simp [idle] at some

end ActiveTransfer

open ActiveTransfer

namespace TransferManager

variable {m k next : TransferManager} {env : WorkEnv} {i j : Fin simTransfersMax}
variable {t l : TransferId} {source : List UInt8} {up down : List Parcel} {p q : Packet}

/-- What holds of the slots of a client. -/
structure Orderly (m : TransferManager) : Prop where
  hosts : ∀ i, (m.hostTransfers i).Supplied
  receives : ∀ i, (m.recvTransfers i).Receives
  oneHost : ∀ t ≠ 0, m.hostTransfers.Single (hostView t)
  oneRecv : ∀ t ≠ 0, ∀ source, m.recvTransfers.Single (recvView t source)
  locals : ∀ i j, (m.hostTransfers i).asking = true → (m.hostTransfers j).asking = true →
    (m.hostTransfers i).localId = (m.hostTransfers j).localId → i = j
  counted : ∀ i, (m.hostTransfers i).asking = true → (m.hostTransfers i).localId < m.clientTransferIds

/-- The slot that made the request `l`, if it still waits for its grant, is to send `source`. -/
structure Matches (m : TransferManager) (l : TransferId) (source : List UInt8) : Prop where
  counted : l < m.clientTransferIds
  same : ∀ i, (m.hostTransfers i).asking = true → (m.hostTransfers i).localId = l →
    (m.hostTransfers i).fManager.remaining = source

theorem Orderly.init : TransferManager.init.Orderly where
  hosts _ := .idle rfl rfl fun _ => ⟨rfl, fun _ => rfl⟩
  receives _ := .idle rfl
  oneHost _ _ i _ some := by simp [TransferManager.init, ActiveTransfer.init, hostView, hosting] at some
  oneRecv _ _ _ i _ some := by
    simp [TransferManager.init, ActiveTransfer.init, recvView, receiving] at some
  locals _ _ waits := by simp [TransferManager.init, ActiveTransfer.init, asking] at waits
  counted _ waits := by simp [TransferManager.init, ActiveTransfer.init, asking] at waits

/-! One slot changes -/

/-- A slot that waits for its grant waited for it before. -/
def Waits (a b : ActiveTransfer) : Prop :=
  b.asking = true → a.asking = true ∧ b.localId = a.localId ∧ b.fManager = a.fManager

theorem Orderly.modifyHost {f : ActiveTransfer → ActiveTransfer} (orderly : m.Orderly)
    (hosts : (f (m.hostTransfers i)).Supplied) (waits : Waits (m.hostTransfers i) (f (m.hostTransfers i)))
    (seen : ∀ t ≠ 0, ((f (m.hostTransfers i)).hostView t).isSome →
      ((m.hostTransfers i).hostView t).isSome ∨ m.hostTransfers.view (hostView t) = none) :
    (m.modifyHost i f).Orderly where
  hosts j := by
    by_cases here : j = i
    · rw [here, modifyHost_self]
      exact hosts
    · rw [modifyHost_of_ne _ _ here]
      exact orderly.hosts j
  receives := orderly.receives
  oneHost t known := (orderly.oneHost t known).modified f (seen t known)
  oneRecv := orderly.oneRecv
  locals := by
    have before (j : Fin simTransfersMax) (asking : ((m.modifyHost i f).hostTransfers j).asking = true) :
        (m.hostTransfers j).asking = true ∧
          ((m.modifyHost i f).hostTransfers j).localId = (m.hostTransfers j).localId := by
      by_cases here : j = i
      · subst here
        rw [modifyHost_self] at asking ⊢
        exact ⟨(waits asking).1, (waits asking).2.1⟩
      · rw [modifyHost_of_ne _ _ here] at asking ⊢
        exact ⟨asking, rfl⟩
    intro j k one two same
    have first := before j one
    have second := before k two
    exact orderly.locals j k first.1 second.1 (first.2.symm.trans (same.trans second.2))
  counted j asking := by
    by_cases here : j = i
    · subst here
      rw [modifyHost_self] at asking ⊢
      rw [(waits asking).2.1]
      exact orderly.counted j (waits asking).1
    · rw [modifyHost_of_ne _ _ here] at asking ⊢
      exact orderly.counted j asking

theorem Orderly.modifyRecv {f : ActiveTransfer → ActiveTransfer} (orderly : m.Orderly)
    (receives : (f (m.recvTransfers i)).Receives)
    (seen : ∀ t ≠ 0, (f (m.recvTransfers i)).receiving = true ∧ (f (m.recvTransfers i)).hdr.tId = t →
      ((m.recvTransfers i).receiving = true ∧ (m.recvTransfers i).hdr.tId = t) ∨
        ∀ source, m.recvTransfers.view (recvView t source) = none) :
    (m.modifyRecv i f).Orderly where
  hosts := orderly.hosts
  receives j := by
    by_cases here : j = i
    · rw [here, modifyRecv_self]
      exact receives
    · rw [modifyRecv_of_ne _ _ here]
      exact orderly.receives j
  oneHost := orderly.oneHost
  oneRecv t known source := by
    refine (orderly.oneRecv t known source).modified f fun some => ?_
    rcases seen t known (recvView_isSome.mp some) with before | none
    · exact .inl (recvView_isSome.mpr before)
    · exact .inr (none source)
  locals := orderly.locals
  counted := orderly.counted

theorem Orderly.pushBacklog (orderly : m.Orderly) (state : InfoState) (file : List UInt8) :
    (m.pushBacklog state file).Orderly :=
  ⟨orderly.hosts, orderly.receives, orderly.oneHost, orderly.oneRecv, orderly.locals, orderly.counted⟩

theorem Matches.modifyHost {f : ActiveTransfer → ActiveTransfer} (matched : m.Matches l source)
    (waits : Waits (m.hostTransfers i) (f (m.hostTransfers i))) : (m.modifyHost i f).Matches l source where
  counted := matched.counted
  same j asking named := by
    by_cases here : j = i
    · subst here
      rw [modifyHost_self] at asking named ⊢
      obtain ⟨before, id, file⟩ := waits asking
      rw [file]
      exact matched.same j before (id.symm.trans named)
    · rw [modifyHost_of_ne _ _ here] at asking named ⊢
      exact matched.same j asking named

theorem Matches.pushBacklog (matched : m.Matches l source) (state : InfoState) (file : List UInt8) :
    (m.pushBacklog state file).Matches l source := ⟨matched.counted, matched.same⟩

theorem Matches.modifyRecv (matched : m.Matches l source) (i : Fin simTransfersMax)
    (f : ActiveTransfer → ActiveTransfer) : (m.modifyRecv i f).Matches l source :=
  ⟨matched.counted, matched.same⟩

/-! Steps that lose transfers at most -/

/-- `k` is reached from `m` without a packet of a transfer. -/
structure Lapses (m k : TransferManager) : Prop where
  orderly : k.Orderly
  matched : ∀ l source, m.Matches l source → k.Matches l source
  turns : ∀ t ≠ 0, ∀ source up down,
    ClientSteps (m.side t source up down) (k.side t source up down)

theorem Lapses.refl (orderly : m.Orderly) : Lapses m m :=
  ⟨orderly, fun _ _ matched => matched, fun _ _ _ _ _ => .refl⟩

theorem Lapses.trans (first : Lapses m k) (second : Lapses k next) : Lapses m next :=
  ⟨second.orderly, fun l source matched => second.matched l source (first.matched l source matched),
    fun t known source up down =>
      (first.turns t known source up down).trans (second.turns t known source up down)⟩

theorem Lapses.pushBacklog (lapses : Lapses m k) (state : InfoState) (file : List UInt8) :
    Lapses m (k.pushBacklog state file) :=
  ⟨lapses.orderly.pushBacklog state file,
    fun l source matched => (lapses.matched l source matched).pushBacklog state file, lapses.turns⟩

theorem turns_host {f : ActiveTransfer → ActiveTransfer} (single : m.hostTransfers.Single (hostView t))
    (fewer : (f (m.hostTransfers i)).hostView t = (m.hostTransfers i).hostView t ∨
      (f (m.hostTransfers i)).hostView t = none) :
    ClientSteps (m.side t source up down) ((m.modifyHost i f).side t source up down) := by
  rcases single.lapses fewer with same | none
  · have same : (m.modifyHost i f).side t source up down = m.side t source up down := by
      simp only [side, TransferManager.modifyHost, same]
    rw [same]
  · have lost : (m.modifyHost i f).side t source up down =
        { m.side t source up down with host := Option.none } := by
      simp only [side, TransferManager.modifyHost, none]
    rw [lost]
    exact .single .losesHost

theorem turns_recv {f : ActiveTransfer → ActiveTransfer}
    (single : m.recvTransfers.Single (recvView t source))
    (fewer : (f (m.recvTransfers i)).recvView t source = (m.recvTransfers i).recvView t source ∨
      (f (m.recvTransfers i)).recvView t source = none) :
    ClientSteps (m.side t source up down) ((m.modifyRecv i f).side t source up down) := by
  rcases single.lapses fewer with same | none
  · have same : (m.modifyRecv i f).side t source up down = m.side t source up down := by
      simp only [side, TransferManager.modifyRecv, same]
    rw [same]
  · have lost : (m.modifyRecv i f).side t source up down =
        { m.side t source up down with recv := Option.none } := by
      simp only [side, TransferManager.modifyRecv, none]
    rw [lost]
    exact .single .losesRecv

theorem Lapses.host {f : ActiveTransfer → ActiveTransfer} (orderly : m.Orderly)
    (hosts : (f (m.hostTransfers i)).Supplied) (waits : Waits (m.hostTransfers i) (f (m.hostTransfers i)))
    (fewer : ∀ t, (f (m.hostTransfers i)).hostView t = (m.hostTransfers i).hostView t ∨
      (f (m.hostTransfers i)).hostView t = none) : Lapses m (m.modifyHost i f) where
  orderly := by
    refine orderly.modifyHost hosts waits fun t known some => ?_
    rcases fewer t with same | none
    · exact .inl (same ▸ some)
    · rw [none] at some
      cases some
  matched l source matched := matched.modifyHost waits
  turns t known source up down := turns_host (orderly.oneHost t known) (fewer t)

theorem Lapses.recv {f : ActiveTransfer → ActiveTransfer} (orderly : m.Orderly)
    (receives : (f (m.recvTransfers i)).Receives)
    (fewer : ∀ t source,
      (f (m.recvTransfers i)).recvView t source = (m.recvTransfers i).recvView t source ∨
        (f (m.recvTransfers i)).recvView t source = none) : Lapses m (m.modifyRecv i f) where
  orderly := by
    refine orderly.modifyRecv receives fun t known some => ?_
    rcases fewer t [] with same | none
    · exact .inl (recvView_isSome.mp (same ▸ recvView_isSome.mpr some))
    · have some : ((f (m.recvTransfers i)).recvView t []).isSome := recvView_isSome.mpr some
      rw [none] at some
      cases some
  matched l source matched := matched.modifyRecv i f
  turns t known source up down := turns_recv (orderly.oneRecv t known source) (fewer t source)

/-- A host slot that is given up. -/
theorem Lapses.leaves {f : ActiveTransfer → ActiveTransfer} (orderly : m.Orderly)
    (idle : (f (m.hostTransfers i)).hosting = false) (unasked : (f (m.hostTransfers i)).asking = false)
    (fresh : (f (m.hostTransfers i)).state = .empty → (f (m.hostTransfers i)).Fresh) :
    Lapses m (m.modifyHost i f) :=
  .host orderly (.idle idle unasked fresh) (fun asking => by simp [unasked] at asking)
    fun _ => .inr (hostView_idle idle)

/-- A receive slot that is given up. -/
theorem Lapses.drops {f : ActiveTransfer → ActiveTransfer} (orderly : m.Orderly)
    (idle : (f (m.recvTransfers i)).receiving = false) : Lapses m (m.modifyRecv i f) :=
  .recv orderly (.idle idle) fun _ _ => .inr (recvView_idle idle)

/-! Commands -/

/-- The counter that hands out the ids of requests does not start again. -/
theorem nextId_counted (room : m.clientTransferIds.toInt < Int64.maxValue.toInt) :
    m.nextId.clientTransferIds.toInt = m.clientTransferIds.toInt + 1 := by
  have least := m.clientTransferIds.le_toInt
  rw [Int64.toInt_maxValue] at room
  rw [show m.nextId.clientTransferIds = m.clientTransferIds + 1 from rfl, Int64.toInt_add,
    Int.bmod_eq_of_le] <;> simp <;> omega

theorem nextId_above (room : m.clientTransferIds.toInt < Int64.maxValue.toInt)
    (below : l < m.clientTransferIds) : l < m.nextId.clientTransferIds := by
  have next := nextId_counted room
  rw [Int64.lt_iff_toInt_lt] at below ⊢
  omega

/-- A free slot gets a request of its own. -/
theorem Lapses.requests {f : ActiveTransfer → ActiveTransfer} (orderly : m.Orderly)
    (room : m.clientTransferIds.toInt < Int64.maxValue.toInt)
    (idle : (m.hostTransfers i).hosting = false)
    (state : (f (m.hostTransfers i)).state = .sendReq)
    (localId : (f (m.hostTransfers i)).localId = m.clientTransferIds)
    (opened : (f (m.hostTransfers i)).fManager.Ready ∧ (f (m.hostTransfers i)).fManager.Unread)
    (fresh : (f (m.hostTransfers i)).Fresh) : Lapses m (m.modifyHost i f).nextId := by
  have unseen : (f (m.hostTransfers i)).hosting = false := by simp [hosting, state]
  have same (t : TransferId) : (f (m.hostTransfers i)).hostView t = (m.hostTransfers i).hostView t := by
    rw [hostView_idle unseen, hostView_idle idle]
  have newest {id : TransferId} (below : id < m.clientTransferIds) : id ≠ m.clientTransferIds :=
    Int64.ne_of_lt below
  have views (t : TransferId) : (m.hostTransfers.modify i f).view (hostView t) =
      m.hostTransfers.view (hostView t) := TransferArray.view_same f (same t)
  refine ⟨⟨fun j => ?_, orderly.receives, fun t known => ?_, orderly.oneRecv, ?_, fun j waits => ?_⟩,
    fun l source matched => ⟨nextId_above room matched.counted, fun j waits named => ?_⟩,
    fun t known source up down => ?_⟩
  · rw [nextId_hostTransfers]
    by_cases here : j = i
    · rw [here, modifyHost_self]
      exact ⟨fun _ => opened.1, fun _ => fresh, fun _ => opened.2⟩
    · rw [modifyHost_of_ne _ _ here]
      exact orderly.hosts j
  · exact (orderly.oneHost t known).modified f fun some => .inl (same t ▸ some)
  · rw [nextId_hostTransfers]
    intro j k first second both
    by_cases left : j = i
    · by_cases right : k = i
      · rw [left, right]
      · rw [left, modifyHost_self, modifyHost_of_ne _ _ right, localId] at both
        rw [modifyHost_of_ne _ _ right] at second
        exact absurd both.symm (newest (orderly.counted k second))
    · rw [modifyHost_of_ne _ _ left] at first both
      by_cases right : k = i
      · rw [right, modifyHost_self, localId] at both
        exact absurd both (newest (orderly.counted j first))
      · rw [modifyHost_of_ne _ _ right] at second both
        exact orderly.locals j k first second both
  · rw [nextId_hostTransfers] at waits ⊢
    by_cases here : j = i
    · have next := nextId_counted (m := m.modifyHost i f) room
      rw [here, modifyHost_self, localId, Int64.lt_iff_toInt_lt, next]
      exact Int.lt_succ m.clientTransferIds.toInt
    · rw [modifyHost_of_ne _ _ here] at waits ⊢
      exact nextId_above room (orderly.counted j waits)
  · rw [nextId_hostTransfers] at waits named ⊢
    by_cases here : j = i
    · rw [here, modifyHost_self, localId] at named
      exact absurd named.symm (newest matched.counted)
    · rw [modifyHost_of_ne _ _ here] at waits named ⊢
      exact matched.same j waits named
  · have same : (m.modifyHost i f).nextId.side t source up down = m.side t source up down := by
      simp only [side, nextId, TransferManager.modifyHost, views]
    rw [same]

/-- A slot that is free, or waits for its grant, hosts nothing. -/
theorem hosting_of_state {a : ActiveTransfer}
    (state : a.state = .empty ∨ a.state = .sendReq ∨ a.state = .getResponse ∨ a.state = .cancel) :
    a.hosting = false := by
  rcases state with state | state | state | state <;> simp [hosting, state]

theorem Commanded.lapses {cmd : TransferCmd} (commanded : Commanded m env cmd next)
    (orderly : m.Orderly) (room : m.clientTransferIds.toInt < Int64.maxValue.toInt) :
    Lapses m next := by
  cases commanded with
  | unmet => exact .refl orderly
  | @refused req f i idle failed =>
    have fresh := (orderly.hosts i).fresh (.inl idle)
    refine .leaves orderly (hosting_of_state (.inl idle)) ?_ fun _ => ⟨fresh.tId, fresh.acceptList⟩
    simp [asking, idle]
  | @requested req f i idle opened =>
    have fresh := (orderly.hosts i).fresh (.inl idle)
    exact .requests orderly room (hosting_of_state (.inl idle)) rfl rfl
      (FileManager.readFile_ready opened) ⟨fresh.tId, fresh.acceptList⟩
  | @replied tId reply i asked named =>
    have receiving : (m.recvTransfers i).receiving = true := by
      simp [ActiveTransfer.receiving, asked]
    have still : ({ m.recvTransfers i with state := if reply then .accept else .deny } :
        ActiveTransfer).receiving = true := by
      cases reply <;> simp [ActiveTransfer.receiving]
    have early : (if reply then TransferState.accept else .deny) ≠ .active := by
      cases reply <;> simp
    refine .recv orderly ⟨fun _ => (orderly.receives i).known receiving,
      fun _ => (orderly.receives i).storing receiving⟩ fun t source => .inl ?_
    simp [recvView, receiving, still, early, asked]
  | cancelledRecv i found => exact .drops orderly rfl
  | cancelledHost i none found => exact .leaves orderly rfl rfl nofun

/-- How far the counter comes. -/
theorem Commanded.counter {cmd : TransferCmd} (commanded : Commanded m env cmd next)
    (room : m.clientTransferIds.toInt < Int64.maxValue.toInt) :
    next.clientTransferIds.toInt ≤ m.clientTransferIds.toInt + 1 := by
  cases commanded with
  | @requested req f i idle opened => exact le_of_eq (nextId_counted room)
  | _ => exact Int.le_add_one (Int.le_refl _)

theorem processCmds_lapses (m : TransferManager) (env : WorkEnv) (orderly : m.Orderly)
    (room : m.clientTransferIds.toInt + m.cmdQueue.length ≤ Int64.maxValue.toInt) :
    Lapses m (m.processCmds env) := by
  have fold (cmds : List TransferCmd) (k : TransferManager) (lapses : Lapses m k)
      (room : k.clientTransferIds.toInt + cmds.length ≤ Int64.maxValue.toInt) :
      Lapses m (cmds.foldl (processCmd env) k) := by
    induction cmds generalizing k with
    | nil => exact lapses
    | cons cmd rest ih =>
      rw [List.length_cons] at room
      have commanded := processCmd_commanded env k cmd
      have one : k.clientTransferIds.toInt < Int64.maxValue.toInt := by omega
      have counter := commanded.counter one
      exact ih _ (lapses.trans (commanded.lapses lapses.orderly one)) (by omega)
  have all := fold m.cmdQueue m (.refl orderly) room
  exact ⟨⟨all.orderly.hosts, all.orderly.receives, all.orderly.oneHost, all.orderly.oneRecv,
    all.orderly.locals, all.orderly.counted⟩,
    fun l source matched => ⟨(all.matched l source matched).counted, (all.matched l source matched).same⟩,
    all.turns⟩

/-! Work -/

/-- `next` is reached from `m` by sending `parcels`. -/
structure Emits (m : TransferManager) (parcels : List Parcel) (next : TransferManager) : Prop where
  orderly : next.Orderly
  matched : ∀ l source, m.Matches l source → next.Matches l source
  turns : ∀ t ≠ 0, ∀ source up down,
    ClientSteps (m.side t source up down) (next.side t source (up ++ parcels) down)
  whole : ∀ parcel ∈ parcels, parcel.packet.whole
  requests : ∀ parcel ∈ parcels, parcel.packet.type? = some .transferRequest →
    next.Matches parcel.packet.clientTransferId parcel.source

/-- What a client emits for a slot it gives up, or has not got a grant for, is no part of
a transfer. -/
theorem Lapses.emits {parcel : Parcel} (lapses : Lapses m next)
    (whole : parcel.packet.whole) (silent : ∀ t, parcel.upView t = none)
    (requests : parcel.packet.type? = some .transferRequest →
      next.Matches parcel.packet.clientTransferId parcel.source) : Emits m [parcel] next where
  orderly := lapses.orderly
  matched := lapses.matched
  turns t known source up down := by
    have same : next.side t source (up ++ [parcel]) down = next.side t source up down := by
      simp [side, silent]
    rw [same]
    exact lapses.turns t known source up down
  whole other member := by
    rw [List.mem_singleton.mp member]
    exact whole
  requests other member := by
    rw [List.mem_singleton.mp member]
    exact requests

theorem Lapses.silent (lapses : Lapses m next) : Emits m [] next where
  orderly := lapses.orderly
  matched := lapses.matched
  turns t known source up down := by
    rw [List.append_nil]
    exact lapses.turns t known source up down
  whole _ member := by cases member
  requests _ member := by cases member

theorem Emits.after {parcels : List Parcel} (lapses : Lapses m k) (emits : Emits k parcels next) :
    Emits m parcels next :=
  ⟨emits.orderly, fun l source matched => emits.matched l source (lapses.matched l source matched),
    fun t known source up down =>
      (lapses.turns t known source up down).trans (emits.turns t known source up down),
    emits.whole, emits.requests⟩

theorem Emits.pushBacklog {parcels : List Parcel} (emits : Emits m parcels next) (state : InfoState)
    (file : List UInt8) : Emits m parcels (next.pushBacklog state file) :=
  ⟨emits.orderly.pushBacklog state file,
    fun l source matched => (emits.matched l source matched).pushBacklog state file, emits.turns,
    emits.whole, fun parcel member kind => (emits.requests parcel member kind).pushBacklog state file⟩

/-- A packet is whole if its type is that of a packet of its size. -/
theorem whole_of_type {type : PacketType} (kind : p.type? = some type) (size : type.least ≤ p.size)
    (most : type = .transferData → p.bSize ≤ dataBytesSize) : p.whole where
  least other same := by
    rw [kind] at same
    cases same
    exact size
  most same := by
    rw [kind] at same
    cases same
    exact most rfl

theorem cancelPacket_emits (lapses : Lapses m next) (a : ActiveTransfer) (p : Packet)
    (source : List UInt8) : Emits m [⟨cancelPacket a p, source⟩] next := by
  have kind := cancelPacket_type a p
  refine lapses.emits (whole_of_type kind (le_of_eq (cancelPacket_size a p).symm) nofun) (fun t => ?_) ?_
  · simp [Parcel.upView, kind]
  · intro request
    rw [kind] at request
    cases request

theorem completePacket_tId (a : ActiveTransfer) (p : Packet) : (completePacket a p).tId = a.hdr.tId :=
  Mem.loadInt64_storeInt64 _ (by decide)

theorem replyPacket_tId (a : ActiveTransfer) (p : Packet) : (replyPacket a p).tId = a.hdr.tId :=
  Mem.loadInt64_storeInt64 _ (by decide)

theorem dataPacket_payload (q : Packet) (id : TransferId) :
    Packet.payload (q.storeInt64 8 id) = q.payload := by
  have count : Packet.bSize (q.storeInt64 8 id) = q.bSize :=
    Mem.load_store_apart _ (.inr (by decide))
  rw [Packet.payload, Packet.payload, count]
  exact Mem.read_store_apart _ (.inr (by decide))

/-- What is sent about a transfer goes behind what is on its way already. -/
theorem side_sends {parcel : Parcel} {view : Up UInt8} (seen : parcel.upView t = some view) :
    m.side t source (up ++ [parcel]) down =
      { m.side t source up down with up := (m.side t source up down).up ++ [view] } := by
  simp [side, seen]

theorem side_unseen {parcel : Parcel} (unseen : parcel.upView t = none) :
    m.side t source (up ++ [parcel]) down = m.side t source up down := by
  simp [side, unseen]

/-- A slot at work sends `view` of its own transfer. -/
theorem host_emits {f : ActiveTransfer → ActiveTransfer} {parcel : Parcel} (view : Up UInt8)
    (orderly : m.Orderly) (hosting : (m.hostTransfers i).hosting = true)
    (hosts : (f (m.hostTransfers i)).Supplied) (unasked : (f (m.hostTransfers i)).asking = false)
    (fewer : ∀ t, ((f (m.hostTransfers i)).hostView t).isSome → (m.hostTransfers i).hdr.tId = t)
    (seen : ∀ t, parcel.upView t = if (m.hostTransfers i).hdr.tId = t then some view else none)
    (whole : parcel.packet.whole) (other : parcel.packet.type? ≠ some .transferRequest)
    (turn : ∀ s : Party ClientId UInt8,
      s.host = (m.hostTransfers i).hostView (m.hostTransfers i).hdr.tId →
      ClientStep s { s with
        host := (f (m.hostTransfers i)).hostView (m.hostTransfers i).hdr.tId
        up := s.up ++ [view] }) : Emits m [parcel] (m.modifyHost i f) := by
  have waits : Waits (m.hostTransfers i) (f (m.hostTransfers i)) := fun asking => by
    simp [unasked] at asking
  refine ⟨?_, fun l source matched => matched.modifyHost waits, fun t known source up down => ?_,
    fun _ member => ?_, fun _ member request => ?_⟩
  · exact orderly.modifyHost hosts waits fun t _ some =>
      .inl (hostView_isSome.mpr ⟨hosting, fewer t some⟩)
  · have single := orderly.oneHost t known
    by_cases same : (m.hostTransfers i).hdr.tId = t
    · have some : ((m.hostTransfers i).hostView t).isSome := hostView_isSome.mpr ⟨hosting, same⟩
      have before : m.hostTransfers.view (hostView t) = (m.hostTransfers i).hostView t := by
        obtain ⟨H, found⟩ := Option.isSome_iff_exists.mp some
        rw [found]
        exact single.view found
      have moved := single.modify some f
      have step := turn (m.side t source up down) (same ▸ before)
      rw [same] at step
      rw [side_sends (by rw [seen, if_pos same])]
      simp only [side, TransferManager.modifyHost, moved]
      exact .single step
    · rw [side_unseen (by rw [seen, if_neg same])]
      refine turns_host single (.inr ?_)
      cases shown : (f (m.hostTransfers i)).hostView t with
      | none => rfl
      | some H => exact absurd (fewer t (by rw [shown]; rfl)) same
  · rw [List.mem_singleton.mp member]
    exact whole
  · rw [List.mem_singleton.mp member] at request
    exact absurd request other

/-- A slot that was offered a transfer sends `view` of it. -/
theorem recv_emits {f : ActiveTransfer → ActiveTransfer} {parcel : Parcel} (view : Up UInt8)
    (orderly : m.Orderly) (receiving : (m.recvTransfers i).receiving = true)
    (receives : (f (m.recvTransfers i)).Receives)
    (fewer : (f (m.recvTransfers i)).receiving = true →
      (f (m.recvTransfers i)).hdr.tId = (m.recvTransfers i).hdr.tId)
    (seen : ∀ t, parcel.upView t = if (m.recvTransfers i).hdr.tId = t then some view else none)
    (whole : parcel.packet.whole) (other : parcel.packet.type? ≠ some .transferRequest)
    (turn : ∀ (s : Party ClientId UInt8) (source : List UInt8),
      s.recv = (m.recvTransfers i).recvView (m.recvTransfers i).hdr.tId source →
      ClientStep s { s with
        recv := (f (m.recvTransfers i)).recvView (m.recvTransfers i).hdr.tId source
        up := s.up ++ [view] }) : Emits m [parcel] (m.modifyRecv i f) := by
  refine ⟨?_, fun l source matched => matched.modifyRecv i f, fun t known source up down => ?_,
    fun _ member => ?_, fun _ member request => ?_⟩
  · exact orderly.modifyRecv receives fun t _ some => .inl ⟨receiving, (fewer some.1).symm.trans some.2⟩
  · have single := orderly.oneRecv t known source
    by_cases same : (m.recvTransfers i).hdr.tId = t
    · have some : ((m.recvTransfers i).recvView t source).isSome := recvView_isSome.mpr ⟨receiving, same⟩
      have before : m.recvTransfers.view (recvView t source) = (m.recvTransfers i).recvView t source := by
        obtain ⟨r, found⟩ := Option.isSome_iff_exists.mp some
        rw [found]
        exact single.view found
      have moved := single.modify some f
      have step := turn (m.side t source up down) source (same ▸ before)
      rw [same] at step
      rw [side_sends (by rw [seen, if_pos same])]
      simp only [side, TransferManager.modifyRecv, moved]
      exact .single step
    · rw [side_unseen (by rw [seen, if_neg same])]
      refine turns_recv single (.inr ?_)
      cases shown : (f (m.recvTransfers i)).recvView t source with
      | none => rfl
      | some r =>
        obtain ⟨still, named⟩ := recvView_isSome.mp (shown ▸ rfl : ((f (m.recvTransfers i)).recvView
          t source).isSome)
        exact absurd ((fewer still).symm.trans named) same
  · rw [List.mem_singleton.mp member]
    exact whole
  · rw [List.mem_singleton.mp member] at request
    exact absurd request other

theorem hostView_active {a : ActiveTransfer} (active : a.state = .active) (named : a.hdr.tId = t) :
    a.hostView t = some ⟨true, a.fManager.remaining, a.awaits⟩ := by
  simp [hostView, hosting, active, named]

/-- An active slot sends the next part of its file. -/
theorem data_emits {f : FileManager} (orderly : m.Orderly) (active : (m.hostTransfers i).state = .active)
    (read : (m.hostTransfers i).fManager.readWork p env.fread = .ok (.working, q, f)) :
    Emits m [⟨q.storeInt64 8 (m.hostTransfers i).hdr.tId, source⟩]
      (m.modifyHost i fun t => { t with fManager := f, pastSend := env.later }) := by
  have hosting : (m.hostTransfers i).hosting = true := by simp [hosting, active]
  have ready := (orderly.hosts i).ready (.inl hosting)
  have sends := (FileManager.readWork_ready ready read).1 rfl
  obtain ⟨bytes, carries⟩ := sends.carries
  have kind := dataPacket_type (m.hostTransfers i).hdr.tId read
  have id : Packet.tId (q.storeInt64 8 (m.hostTransfers i).hdr.tId) = (m.hostTransfers i).hdr.tId :=
    Mem.loadInt64_storeInt64 _ (by decide)
  have size : Packet.size (q.storeInt64 8 (m.hostTransfers i).hdr.tId) = transferDataSize := by
    rw [Packet.size_storeInt64 _ _ (by decide), readWork_size read]
  have count : Packet.bSize (q.storeInt64 8 (m.hostTransfers i).hdr.tId) = q.bSize :=
    Mem.load_store_apart _ (.inr (by decide))
  have unasked : (m.hostTransfers i).asking = false := by simp [asking, active]
  have busy : (m.hostTransfers i).state ≠ .empty := by simp [active]
  refine host_emits (.data q.payload) orderly hosting (.granted unasked busy fun _ => sends.ready) unasked
    (fun t some => (hostView_isSome.mp some).2) (fun t => ?_)
    (whole_of_type kind (le_of_eq size.symm) fun _ => count ▸ carries.most) (by simp [kind])
    fun s here => ?_
  · simp only [Parcel.upView, id, kind, dataPacket_payload]
  · rw [hostView_active active rfl] at here
    have after : ({ m.hostTransfers i with fManager := f, pastSend := env.later } :
        ActiveTransfer).hostView (m.hostTransfers i).hdr.tId =
          some ⟨true, f.remaining, (m.hostTransfers i).awaits⟩ := hostView_active active rfl
    rw [after]
    exact .sends here rfl sends.remaining

/-- An active slot that has sent its file says so. -/
theorem complete_emits {f : FileManager} (orderly : m.Orderly)
    (active : (m.hostTransfers i).state = .active)
    (read : (m.hostTransfers i).fManager.readWork p env.fread = .ok (.complete, q, f)) :
    Emits m [⟨completePacket (m.hostTransfers i) q, source⟩]
      (m.modifyHost i fun t => { { t with fManager := f.close }.zeroed with pastSend := env.later }) := by
  have hosting : (m.hostTransfers i).hosting = true := by simp [hosting, active]
  have ended := (FileManager.readWork_ready ((orderly.hosts i).ready (.inl hosting)) read).2 rfl
  have kind := completePacket_type (m.hostTransfers i) q
  refine host_emits .complete orderly hosting (.idle rfl rfl fun _ => ⟨rfl, fun _ => rfl⟩) rfl
    (fun t some => ?_) (fun t => ?_) (whole_of_type kind (le_of_eq (completePacket_size _ q).symm) nofun)
    (by simp [kind]) fun s here => ?_
  · rw [hostView_idle rfl] at some
    cases some
  · simp only [Parcel.upView, completePacket_tId, kind]
  · rw [hostView_active active rfl] at here
    rw [hostView_idle rfl]
    exact .completes here rfl ended

/-- A slot whose user has answered says so. -/
theorem reply_emits {f : ActiveTransfer → ActiveTransfer} (accept : Bool) (orderly : m.Orderly)
    (answered : (m.recvTransfers i).state = if accept then .accept else .deny)
    (receives : (f (m.recvTransfers i)).Receives)
    (after : ∀ source, (f (m.recvTransfers i)).recvView (m.recvTransfers i).hdr.tId source =
      if accept then some ⟨false, source, (m.recvTransfers i).fManager.stored⟩ else none)
    (fewer : (f (m.recvTransfers i)).receiving = true →
      (f (m.recvTransfers i)).hdr.tId = (m.recvTransfers i).hdr.tId) :
    Emits m [⟨replyPacket (m.recvTransfers i) p, source⟩] (m.modifyRecv i f) := by
  have receiving : (m.recvTransfers i).receiving = true := by
    cases accept <;> simp [ActiveTransfer.receiving, answered]
  have kind := replyPacket_type (m.recvTransfers i) p
  have said : (replyPacket (m.recvTransfers i) p).replyAccept ≠ 0 ↔ accept = true := by
    rw [replyPacket_accept, answered]
    cases accept <;> simp
  refine recv_emits (.reply accept) orderly receiving receives fewer (fun t => ?_)
    (whole_of_type kind (le_of_eq (replyPacket_size _ p).symm) nofun) (by simp [kind])
    fun s source here => ?_
  · simp only [Parcel.upView, replyPacket_tId, kind, said, Bool.decide_eq_true]
  · have before : (m.recvTransfers i).recvView (m.recvTransfers i).hdr.tId source =
        some ⟨true, source, (m.recvTransfers i).fManager.stored⟩ := by
      cases accept <;> simp [recvView, receiving, answered]
    rw [before] at here
    rw [after]
    exact .replies here rfl accept

/-- What `do_work` does to the side of a transfer is what it sends of it. -/
theorem Worked.emits {emitted : Option (Slot × Packet)} (worked : Worked m env p emitted next)
    (orderly : m.Orderly) :
    Emits m (emitted.toList.map fun e => ⟨e.2, (m.slot e.1).fManager.remaining⟩) next := by
  cases worked with
  | nothing => exact (Lapses.refl orderly).silent
  | request i asked =>
    have waits : (m.hostTransfers i).asking = true := by simp [asking, asked]
    have lapses : Lapses m (m.modifyHost i fun t => { t with state := .getResponse }) := by
      refine .host orderly
        ⟨fun _ => (orderly.hosts i).ready (.inr waits), fun _ => ?_,
          fun _ => (orderly.hosts i).unread waits⟩
        (fun _ => ⟨waits, rfl, rfl⟩) fun t => .inr (hostView_idle rfl)
      have fresh := (orderly.hosts i).fresh (.inr waits)
      exact ⟨fresh.tId, fresh.acceptList⟩
    have kind := requestPacket_type (m.hostTransfers i) p
    refine lapses.emits (whole_of_type kind (le_of_eq (requestPacket_size _ p).symm) nofun)
      (fun t => by simp [Parcel.upView, kind]) fun _ => ?_
    rw [requestPacket_clientTransferId]
    refine Matches.modifyHost ⟨orderly.counted i waits, fun j asks named => ?_⟩ fun _ =>
      ⟨waits, rfl, rfl⟩
    rw [orderly.locals j i asks waits named]
    rfl
  | cancelHost i cancelled =>
    refine cancelPacket_emits (.pushBacklog ?_ _ _) _ _ _
    exact .leaves orderly rfl rfl fun _ => ⟨rfl, fun _ => rfl⟩
  | data i active read => exact data_emits orderly active read
  | complete i active read => exact (complete_emits orderly active read).pushBacklog _ _
  | failed i active ripe read stopped =>
    refine cancelPacket_emits (.pushBacklog ?_ _ _) _ _ _
    exact .leaves orderly rfl rfl fun _ => ⟨rfl, fun _ => rfl⟩
  | cancelRecv i cancelled =>
    exact cancelPacket_emits ((Lapses.drops orderly rfl).pushBacklog _ _) _ _ _
  | accept i accepted =>
    have receiving : (m.recvTransfers i).receiving = true := by
      simp [ActiveTransfer.receiving, accepted]
    refine reply_emits true orderly accepted ⟨fun _ => (orderly.receives i).known receiving,
      fun _ => (orderly.receives i).storing receiving⟩ (fun source => ?_) fun _ => rfl
    simp [recvView, ActiveTransfer.receiving]
  | deny i denied =>
    refine .pushBacklog (reply_emits (f := ActiveTransfer.zeroed) false orderly denied (.idle rfl)
      (fun _ => recvView_idle rfl) fun still => ?_) _ _
    exact Bool.noConfusion (still : false = true)

/-- Only a slot that is to send a request makes one. -/
theorem Worked.requests {emitted : Option (Slot × Packet)} (worked : Worked m env p emitted next)
    (s : Slot) (r : Packet) (emits : emitted = some (s, r)) (request : r.type? = some .transferRequest) :
    ∃ i, s = .host i ∧ (m.hostTransfers i).state = .sendReq := by
  have other {a : Packet} {type : PacketType} (kind : a.type? = some type) (same : a = r)
      (differs : type ≠ .transferRequest) : False := by
    rw [same, request] at kind
    cases kind
    exact differs rfl
  cases worked with
  | nothing => cases emits
  | request i asked =>
    cases emits
    exact ⟨i, rfl, asked⟩
  | cancelHost i => cases emits; exact (other (cancelPacket_type _ _) rfl nofun).elim
  | data i active read => cases emits; exact (other (dataPacket_type _ read) rfl nofun).elim
  | complete i => cases emits; exact (other (completePacket_type _ _) rfl nofun).elim
  | failed i => cases emits; exact (other (cancelPacket_type _ _) rfl nofun).elim
  | cancelRecv i => cases emits; exact (other (cancelPacket_type _ _) rfl nofun).elim
  | accept i => cases emits; exact (other (replyPacket_type _ _) rfl nofun).elim
  | deny i => cases emits; exact (other (replyPacket_type _ _) rfl nofun).elim

/-- Commands, and the work that follows them. -/
theorem work_emits (orderly : m.Orderly)
    (room : m.clientTransferIds.toInt + m.cmdQueue.length ≤ Int64.maxValue.toInt)
    (taken : m.step (.work env p) = .ok next) :
    Emits m ((m.emission (.work env p)).toList.map fun e =>
      ⟨e.2, ((m.processCmds env).slot e.1).fManager.remaining⟩) next := by
  have lapses := m.processCmds_lapses env orderly room
  exact .after lapses ((step_worked taken).emits lapses.orderly)

end TransferManager

end Quickshare
