import Quickshare.Server.Authorisation
import Quickshare.Server.Granting
import Quickshare.Server.Integrity

/-! What a cancel takes away. As creator the sender is matched by transfer, and
exactly the transfer goes. As recipient its rows are deleted by client, so the
rows it has for other transfers go too. -/

namespace Quickshare

open Runs

/-! Rows with their keys in order -/

section Tidy

variable {s t : Server} {c : Slot} {db next : Database}

/-- Statements succeed, ids are positive, no two transfers share one, and the
client rows are of transfers and of clients with an id. -/
structure Database.Keyed (db : Database) : Prop extends db.Sane fun _ => True where
  unique : ∀ a ∈ db.tables.transfers, ∀ b ∈ db.tables.transfers,
    a.transferId = b.transferId → a = b
  named : ∀ row ∈ db.tables.transferClients, row.clientId ≠ 0

/-- Its rows keyed, with no transaction open. -/
structure Database.Tidy (db : Database) : Prop extends db.Keyed where
  closed : db.saved = none

theorem Database.Tidy.settled (tidy : db.Tidy) : db.Settled fun _ => True :=
  ⟨tidy.toSane, tidy.closed⟩

theorem Database.Tidy.fades (tidy : db.Tidy) (fades : db.Fades next)
    (settled : next.Settled fun _ => True) : next.Tidy where
  toSane := settled.toSane
  closed := settled.closed
  unique := fun a first b second => tidy.unique a (fades.rows.transfers a first) b
    (fades.rows.transfers b second)
  named := fun row member => by
    obtain ⟨old, held, -, client⟩ := fades.rows.clients row member
    exact client ▸ tidy.named old held

theorem Database.Tidy.grants {cId : ClientId} {recipients : List ClientId} {tId : TransferId}
    (tidy : db.Tidy) (grants : db.Grants cId recipients tId next)
    (named : ∀ id ∈ recipients, id ≠ 0) (settled : next.Settled fun _ => True) : next.Tidy where
  toSane := settled.toSane
  closed := settled.closed
  unique := fun a first b second same => by
    rw [grants.transfers, List.mem_append, List.mem_singleton] at first second
    rcases first with old | rfl <;> rcases second with old' | rfl
    · exact tidy.unique a old b old' same
    · exact absurd same (grants.unused a old)
    · exact absurd same.symm (grants.unused b old')
    · rfl
  named := fun row member => by
    rw [grants.clients, List.mem_append, List.mem_map] at member
    rcases member with old | ⟨id, listed, rfl⟩
    · exact tidy.named row old
    · exact named id listed

theorem requestIds_ne_zero {p : Packet} {indices : List Nat} {id : ClientId}
    (member : id ∈ requestIds p indices) : id ≠ 0 := by
  simpa using List.mem_takeWhile_imp member

theorem analizePacket_tidy (tidy : s.db.Tidy) (c : Slot) :
    Ends (fun t => t.db.Tidy) (fun _ => True) (analizePacket s c) := by
  have settled := analizePacket_settled (c := c) tidy.settled fun _ => ⟨trivial, fun _ _ => trivial⟩
  refine (settled.and (analizePacket_rows s c)).mono (fun t _ ends => ?_) fun _ _ => trivial
  obtain ⟨settled, rows⟩ := ends
  by_cases granted : s.granted c
  · exact tidy.grants (rows.granted granted) (fun _ => requestIds_ne_zero) settled
  · exact tidy.fades (rows.fades granted) settled

theorem leavingPlan_settled (settled : s.db.Settled fun _ => True) (c : Slot) :
    (leavingPlan s c).2.Settled fun _ => True := by
  unfold leavingPlan
  split
  · obtain ⟨sane, closed⟩ := settled.toSane.inTransaction settled.closed
      (disconnectBody_continues s c) fun db sane => sane.disconnectBody
    exact ⟨sane.weaken fun _ _ => trivial, closed⟩
  · exact settled

theorem closeClient_tidy (tidy : s.db.Tidy) (fd : Int) (deleted : Bool) :
    Ends (fun t => t.db.Tidy) (fun _ => True) (closeClient s fd deleted) := by
  have settled : Ends (fun t : Server => t.db.Settled fun _ => True) (fun _ => True)
      (closeClient s fd deleted) := by
    rw [closeClient_eq]
    split
    · dsimp only
      split
      · exact tidy.settled
      · rename_i i _
        have left := leavingPlan_settled (s := { s with epoll := s.epoll.erase fd })
          tidy.settled i
        exact ((leaveSession_sends _ i).settled left).bind fun t kept => kept
    · exact tidy.settled
  exact (settled.and (closeClient_fades s fd deleted)).mono
    (fun t _ ends => tidy.fades ends.2.2 ends.1) fun _ _ => trivial

theorem tidy_rule : PacketRule (fun s => s.db.Tidy) fun _ => True where
  fail := fun _ _ _ _ => trivial
  drain := fun _ _ _ tidy _ => tidy
  close := fun _ fd deleted tidy => closeClient_tidy tidy fd deleted
  frame := fun _ _ _ tidy => tidy
  setFd := fun _ _ _ tidy => tidy
  secured := fun _ _ tidy _ => tidy
  received := fun _ _ _ tidy => tidy
  called := fun _ _ tidy => tidy

theorem Database.Tidy.step (tidy : s.db.Tidy) (e : Event) :
    Ends (fun t => t.db.Tidy) (fun _ => True) (step s e) :=
  tidy_rule.step tidy e (fun _ _ _ _ _ _ _ => tidy) fun c _ _ tidy => analizePacket_tidy tidy c

end Tidy

/-! What a cancel is for -/

section Purpose

variable {s t u : Server} {c i : Slot} {tId : TransferId}

/-- The tables without the transfer if `c` created it, else without the rows of
`c` for it. -/
def Server.afterCancel (s : Server) (c : Slot) (tId : TransferId) : Tables :=
  if s.isCreator c tId then s.db.tables.without tId
  else { s.db.tables with transferClients := s.db.tables.transferClients.filter fun row =>
    ¬ (row.transferId = tId ∧ row.clientId = (s.client c).id) }

/-- How many cancels of `c` a connected client gets: one for each of its rows that
does not deny the transfer of `c`, or one if it created a transfer `c` has a row for. -/
def Server.cancelsFor (s : Server) (c : Slot) (tId : TransferId) (i : Slot) : Nat :=
  if s.Live i then
    if s.isCreator c tId then
      s.db.tables.transferClients.countP fun row =>
        row.transferId = tId ∧ row.accepted ≠ 0 ∧ row.clientId = (s.client i).id
    else if s.isRecipient c tId ∧ ⟨tId, (s.client i).id⟩ ∈ s.db.tables.transfers then 1
    else 0
  else 0

/-- `packets` are cancels of `tId` by the client with the id `sender`. -/
def AreCancels (sender : ClientId) (tId : TransferId) (packets : List Packet) : Prop :=
  ∀ p ∈ packets, p.type? = some .transferCancel ∧ p.tId = tId ∧ p.hdrFrom = sender

/-- `t` is `s` after `c` has cancelled `tId` and nothing else. -/
structure Server.Cancels (s : Server) (c : Slot) (tId : TransferId) (t : Server) : Prop where
  tables : t.db.tables = s.afterCancel c tId
  told : ∀ i, ∃ packets, packets.length = s.cancelsFor c tId i ∧
    AreCancels (s.client c).id tId packets ∧
    (t.client i).msgQueue.contents = (s.client i).msgQueue.contents ++ packets
  transfers : ∀ row : TransferRow, row.transferId ≠ tId →
    (row ∈ t.db.tables.transfers ↔ row ∈ s.db.tables.transfers)
  clients : t.db.tables.transferClients.filter (·.transferId ≠ tId) =
    s.db.tables.transferClients.filter (·.transferId ≠ tId)

/-- Cancelling a transfer leaves the rows of the others alone. -/
theorem afterCancel_transfers (s : Server) (c : Slot) {row : TransferRow}
    (other : row.transferId ≠ tId) :
    row ∈ (s.afterCancel c tId).transfers ↔ row ∈ s.db.tables.transfers := by
  unfold Server.afterCancel
  split
  · simp [Tables.without, other]
  · exact Iff.rfl

theorem afterCancel_clients (s : Server) (c : Slot) (tId : TransferId) :
    (s.afterCancel c tId).transferClients.filter (·.transferId ≠ tId) =
      s.db.tables.transferClients.filter (·.transferId ≠ tId) := by
  unfold Server.afterCancel
  split
  · simp [Tables.without, List.filter_filter]
  · rw [List.filter_filter]
    refine List.filter_congr fun row _ => ?_
    by_cases other : row.transferId = tId <;> simp [other]

/-- A cancel whose tables and packets are right is right as a whole. -/
theorem Server.Cancels.of_tables (tables : t.db.tables = s.afterCancel c tId)
    (told : ∀ i, ∃ packets, packets.length = s.cancelsFor c tId i ∧
      AreCancels (s.client c).id tId packets ∧
      (t.client i).msgQueue.contents = (s.client i).msgQueue.contents ++ packets) :
    s.Cancels c tId t where
  tables := tables
  told := told
  transfers := fun row other => by rw [tables, afterCancel_transfers s c other]
  clients := by rw [tables, afterCancel_clients]

theorem Server.Cancels.stores (cancels : s.Cancels c tId t) (same : SameStores t u) :
    s.Cancels c tId u :=
  .of_tables (same.tables.trans cancels.tables) fun i => by
    obtain ⟨packets, length, are, grown⟩ := cancels.told i
    exact ⟨packets, length, are, (congrArg Queue.contents (same.queues i)).trans grown⟩

end Purpose

/-! The packets of a cancel -/

section Packets

variable {Item : Type} {s t : Server} {c i : Slot} {tId : TransferId} {plan : Plan}

theorem transferState_cancels (sender : ClientId) (tId : TransferId) (old : Packet) :
    (transferState sender tId .transferCancel old).type? = some .transferCancel ∧
      (transferState sender tId .transferCancel old).tId = tId ∧
      (transferState sender tId .transferCancel old).hdrFrom = sender := by
  refine ⟨?_, ?_, ?_⟩
  · rw [transferState, Packet.type?_storeInt64 _ _ (by decide),
      Packet.type?_storeInt64 _ _ (by decide), Packet.type?_packetHdr]
  · have kept : (transferState sender tId .transferCancel old).tId = Packet.tId
        ((Packet.packetHdr .transferCancel transferStateSize old).storeInt64 8 tId) :=
      Bytes.Mem.loadInt64_store_apart _ (.inl (by decide))
    rw [kept]
    exact Bytes.Mem.loadInt64_storeInt64 _ (by decide)
  · exact Bytes.Mem.loadInt64_storeInt64 _ (by decide)

/-- Every packet of the plan is a cancel of `tId` by `sender`. -/
def Plan.Cancels (sender : ClientId) (tId : TransferId) (plan : Plan) : Prop :=
  ∀ send ∈ plan, send.2 = transferState sender tId .transferCancel

theorem toConnected_cancels {key : Item → ClientId} {packet : Item → Packet → Packet}
    {items : List Item} {sender : ClientId}
    (all : ∀ x ∈ items, packet x = transferState sender tId .transferCancel) :
    Plan.Cancels sender tId (toConnected s key packet items) := by
  intro send member
  obtain ⟨x, listed, found⟩ := List.mem_flatMap.mp member
  cases here : clientFindById s.clients (key x) with
  | none => simp [here] at found
  | some r =>
    obtain rfl : send = (r, packet x) := by simpa [here] using found
    exact all x listed

/-- A computation that sends cancels adds as many to each queue as it sends there. -/
theorem Sends.told {db : Database} {r : Run Server} {sender : ClientId}
    (sends : Sends s plan db r) (valid : s.QueuesValid) (done : r = .ok t)
    (cancels : plan.Cancels sender tId) (i : Slot) :
    ∃ packets, packets.length = (plan.map Prod.fst).count i ∧ AreCancels sender tId packets ∧
      (t.client i).msgQueue.contents = (s.client i).msgQueue.contents ++ packets := by
  refine ⟨_, ?_, ?_, sends.contents valid done i⟩
  · rw [Queue.made_length, Plan.toward_length]
  · refine Queue.made_forall _ fun f member old => ?_
    obtain ⟨⟨j, g⟩, listed, rfl⟩ := List.mem_map.mp member
    have same : g = _ := cancels _ (List.mem_filter.mp listed).1
    subst same
    exact transferState_cancels sender tId old

end Packets

/-! The body of the transaction -/

section Body

variable {s t : Server} {c i : Slot} {db : Database} {tId : TransferId} {cId : ClientId}

theorem Server.DistinctIds.find_iff (distinct : s.DistinctIds) {id : ClientId} :
    clientFindById s.clients id = some i ↔ s.Live i ∧ id = (s.client i).id := by
  constructor
  · intro found
    have right := clientFindById_some found
    exact ⟨right.1, right.2.symm⟩
  · rintro ⟨live, rfl⟩
    exact distinct.foundById i live

theorem Server.DistinctIds.count_found (distinct : s.DistinctIds) (ids : List ClientId) (i : Slot) :
    (ids.filterMap (clientFindById s.clients)).count i =
      if s.Live i then ids.count (s.client i).id else 0 := by
  induction ids with
  | nil => simp
  | cons x rest ih =>
    by_cases here : clientFindById s.clients x = some i
    · obtain ⟨live, rfl⟩ := distinct.find_iff.mp here
      simp [here, ih, live]
    · have skip : ((x :: rest).filterMap (clientFindById s.clients)).count i =
          (rest.filterMap (clientFindById s.clients)).count i := by
        cases found : clientFindById s.clients x with
        | none => simp [found]
        | some j =>
          have other : j ≠ i := fun same => here (by rw [found, same])
          simp [found, other]
      rw [skip, ih]
      by_cases live : s.Live i
      · have other : x ≠ (s.client i).id := fun same => here (distinct.find_iff.mpr ⟨live, same⟩)
        simp [live, other]
      · simp [live]

/-- A cursor over a transfer's clients returns those that do not deny it. -/
theorem dbGetClientAll_works (works : ∀ n, db.outcome n = none)
    (named : ∀ row ∈ db.tables.transferClients, row.clientId ≠ 0) (tId : TransferId) :
    (dbGetClientAll db tId).1 = (db.tables.transferClients.filter fun row =>
      row.transferId = tId ∧ row.accepted ≠ 0).map TransferClientRow.clientId := by
  have read : (dbGetClientAll db tId).1 = ((db.tables.transferClients.filter fun row =>
      row.transferId = tId ∧ row.accepted ≠ 0).map
        TransferClientRow.clientId).takeWhile (· ≠ 0) := by
    simp [dbGetClientAll, Database.select, Database.tick, works]
  rw [read]
  refine List.takeWhile_eq_self_iff.mpr fun id member => ?_
  obtain ⟨row, listed, rfl⟩ := List.mem_map.mp member
  simpa using named row (List.mem_filter.mp listed).1

/-- The creators and ids of the transfers a client has rows for, once for each row. -/
def Tables.joined (tables : Tables) (cId : ClientId) : List TransferInfo :=
  ((tables.transferClients.filter (·.clientId = cId)).flatMap fun row =>
    tables.transfers.filter (·.transferId = row.transferId)).map
      fun row => ⟨row.creatorId, row.transferId⟩

theorem Tables.mem_joined {tables : Tables} {info : TransferInfo} : info ∈ tables.joined cId ↔
    (∃ row ∈ tables.transferClients, row.clientId = cId ∧ row.transferId = info.tId) ∧
      ⟨info.tId, info.creator⟩ ∈ tables.transfers := by
  simp only [joined, List.mem_map, List.mem_flatMap, List.mem_filter, decide_eq_true_eq]
  constructor
  · rintro ⟨transfer, ⟨row, ⟨held, client⟩, created, joins⟩, rfl⟩
    exact ⟨⟨row, held, client, joins.symm⟩, created⟩
  · rintro ⟨⟨row, held, client, transfer⟩, created⟩
    exact ⟨_, ⟨row, ⟨held, client⟩, created, transfer.symm⟩, rfl⟩

theorem dbGetCreator_works (works : ∀ n, db.outcome n = none) (cId : ClientId) :
    (dbGetCreator db cId).1 = (db.tables.joined cId).takeWhile (·.creator ≠ 0) := by
  simp [dbGetCreator, Database.select, Database.tick, works, Tables.joined]

theorem dbGetCreator_ne_zero {info : TransferInfo} (member : info ∈ (dbGetCreator db cId).1) :
    info.creator ≠ 0 := by
  simpa using List.mem_takeWhile_imp member

/-- `c` has no row for another transfer, and the creator has an id other than 0. -/
def Server.onlyRecipient (s : Server) (c : Slot) (tId : TransferId) : Prop :=
  (∀ row ∈ s.db.tables.transferClients, row.clientId = (s.client c).id → row.transferId = tId) ∧
    ∀ row ∈ s.db.tables.transfers, row.transferId = tId → row.creatorId ≠ 0

/-- What `packet_cancel` deletes for `c` is of the transfer only. -/
def Server.spares (s : Server) (c : Slot) (tId : TransferId) : Prop :=
  s.isCreator c tId ∨ ¬ s.isRecipient c tId ∨ s.onlyRecipient c tId

instance (s : Server) (c : Slot) (tId : TransferId) : Decidable (s.onlyRecipient c tId) :=
  inferInstanceAs (Decidable ((∀ row ∈ _, _ → _) ∧ ∀ row ∈ _, _ → _ ≠ _))

instance (s : Server) (c : Slot) (tId : TransferId) : Decidable (s.spares c tId) :=
  inferInstanceAs (Decidable (_ ∨ _ ∨ _))

/-- A recipient of nothing else is found in the join. -/
theorem Server.onlyRecipient.found (only : s.onlyRecipient c tId) (keyed : db.Keyed)
    (same : db.tables = s.db.tables) (recipient : s.isRecipient c tId) :
    ∃ info ∈ (dbGetCreator db (s.client c).id).1, info.tId = tId := by
  obtain ⟨row, held, transfer, client⟩ := recipient
  rw [← same] at held
  obtain ⟨created, listed, joins⟩ := keyed.linked.transfers row held
  have whole : ∀ info ∈ db.tables.joined (s.client c).id, decide (info.creator ≠ 0) = true := by
    intro info member
    obtain ⟨⟨other, mine, client', transfer'⟩, known⟩ := Tables.mem_joined.mp member
    rw [same] at mine known
    have target := only.1 other mine client'
    simpa using only.2 _ known (transfer'.symm.trans target)
  rw [dbGetCreator_works keyed.works, List.takeWhile_eq_self_iff.mpr whole]
  refine ⟨⟨created.creatorId, created.transferId⟩, ?_, joins.trans transfer⟩
  exact Tables.mem_joined.mpr ⟨⟨row, held, client, joins.symm⟩, listed⟩

/-- A plan and a database that are what the cancel is for. -/
structure Server.Fulfils (s : Server) (c : Slot) (tId : TransferId) (body : Plan × Database) :
    Prop where
  tables : body.2.tables = s.afterCancel c tId
  cancels : body.1.Cancels (s.client c).id tId
  counts : ∀ i, (body.1.map Prod.fst).count i = s.cancelsFor c tId i

theorem cancelBody_creator (keyed : db.Keyed) (same : db.tables = s.db.tables)
    (distinct : s.DistinctIds) (creator : s.isCreator c (s.client c).decryptBuf.packet.tId) :
    s.Fulfils c (s.client c).decryptBuf.packet.tId (cancelBody s c db) := by
  have known : ⟨(s.client c).decryptBuf.packet.tId, (s.client c).id⟩ ∈ db.tables.transfers := by
    rw [same]
    exact creator
  have listed := keyed.getTransfer known
  dsimp only at listed
  simp only [cancelBody, if_pos listed, cancelTransferPlan, dbGetTransfer_snd, dbGetClientAll_snd]
  generalize (s.client c).decryptBuf.packet.tId = tId at creator
  refine ⟨?_, toConnected_cancels fun _ _ => rfl, fun i => ?_⟩
  · rw [dbCleanupTransfer_works (by exact keyed.works), Server.afterCancel, if_pos creator, ← same]
    rfl
  · rw [toConnected_receivers, dbGetClientAll_works (by exact keyed.works) (by exact keyed.named)]
    have count := distinct.count_found ((s.db.tables.transferClients.filter fun row =>
      row.transferId = tId ∧ row.accepted ≠ 0).map TransferClientRow.clientId) i
    rw [← same] at count
    refine count.trans ?_
    rw [Server.cancelsFor, same]
    by_cases live : s.Live i
    · rw [if_pos live, if_pos live, if_pos creator, List.count, List.countP_map, List.countP_filter]
      refine List.countP_congr fun row _ => ?_
      simp [and_comm, and_assoc]
    · simp [live]

/-- The creator of a transfer that is told of one leaving it. -/
theorem cancelBody_recipient (keyed : db.Keyed) (same : db.tables = s.db.tables)
    (distinct : s.DistinctIds) {info : TransferInfo}
    (stranger : ¬ s.isCreator c info.tId)
    (member : info ∈ (dbGetCreator db (s.client c).id).1) :
    (leavePlan s c [info]).Cancels (s.client c).id info.tId ∧
      ∀ i, ((leavePlan s c [info]).map Prod.fst).count i = s.cancelsFor c info.tId i := by
  obtain ⟨recipient, created⟩ := mem_dbGetCreator member
  rw [same] at created recipient
  have mine : s.isRecipient c info.tId := recipient
  have isCreator {id : ClientId} : ⟨info.tId, id⟩ ∈ s.db.tables.transfers ↔ info.creator = id := by
    constructor
    · intro known
      rw [← same] at known created
      have one := keyed.unique _ known _ created rfl
      exact (congrArg TransferRow.creatorId one).symm
    · rintro rfl
      exact created
  refine ⟨toConnected_cancels fun x listed => ?_, fun i => ?_⟩
  · rw [List.mem_singleton.mp listed]
  · have receivers : (leavePlan s c [info]).map Prod.fst =
        [info.creator].filterMap (clientFindById s.clients) := toConnected_receivers ..
    rw [receivers, distinct.count_found, Server.cancelsFor]
    by_cases live : s.Live i
    · rw [if_pos live, if_pos live, if_neg stranger]
      simp only [mine, isCreator, true_and, List.count_singleton, beq_iff_eq]
    · simp [live]

/-- Where `packet_cancel` deletes rows of the transfer only, it does what it is for. -/
theorem cancelBody_fulfils (keyed : db.Keyed) (same : db.tables = s.db.tables)
    (distinct : s.DistinctIds) (spares : s.spares c (s.client c).decryptBuf.packet.tId) :
    s.Fulfils c (s.client c).decryptBuf.packet.tId (cancelBody s c db) := by
  by_cases creator : s.isCreator c (s.client c).decryptBuf.packet.tId
  · exact cancelBody_creator keyed same distinct creator
  have absent : (s.client c).decryptBuf.packet.tId ∉ (dbGetTransfer db (s.client c).id).1 :=
    fun member => creator (by rw [Server.isCreator, ← same]; exact mem_dbGetTransfer member)
  simp only [cancelBody, if_neg absent, dbGetTransfer_snd, dbGetCreator_snd]
  have read : (dbGetCreator db.tick.2 (s.client c).id).1 = (dbGetCreator db (s.client c).id).1 := by
    rw [dbGetCreator_works (by exact keyed.works), dbGetCreator_works keyed.works]
    rfl
  rw [read]
  generalize (s.client c).decryptBuf.packet.tId = tId at creator absent spares
  cases found : (dbGetCreator db (s.client c).id).1.find? (·.tId = tId) with
  | none =>
    have stranger : ¬ s.isRecipient c tId := fun recipient => by
      rcases spares with mine | foreign | only
      · exact creator mine
      · exact foreign recipient
      · obtain ⟨info, member, here⟩ := only.found keyed same recipient
        exact absurd here (by simpa using List.find?_eq_none.mp found info member)
    refine ⟨?_, fun send member => absurd member List.not_mem_nil, fun i => ?_⟩
    · have kept : s.db.tables.transferClients.filter (fun row =>
          ¬ (row.transferId = tId ∧ row.clientId = (s.client c).id)) =
            s.db.tables.transferClients :=
        List.filter_eq_self.mpr fun row member =>
          decide_eq_true fun both => stranger ⟨row, member, both.1, both.2⟩
      rw [Server.afterCancel, if_neg creator, kept]
      exact same
    · simp [Server.cancelsFor, creator, stranger]
  | some info =>
    have member := List.mem_of_find?_eq_some found
    obtain rfl : info.tId = tId := by simpa using List.find?_some found
    obtain ⟨recipient, created⟩ := mem_dbGetCreator member
    rw [same] at recipient
    have only : s.onlyRecipient c info.tId := by
      rcases spares with mine | foreign | only
      · exact absurd mine creator
      · exact absurd recipient foreign
      · exact only
    obtain ⟨cancels, counts⟩ := cancelBody_recipient keyed same distinct creator member
    refine ⟨?_, cancels, counts⟩
    have rows : s.db.tables.transferClients.filter (·.clientId ≠ (s.client c).id) =
        s.db.tables.transferClients.filter fun row =>
          ¬ (row.transferId = info.tId ∧ row.clientId = (s.client c).id) :=
      List.filter_congr fun row held => by
        have mine := only.1 row held
        by_cases client : row.clientId = (s.client c).id <;> simp [client, mine]
    rw [dbClientDelete_works (by exact keyed.works), Server.afterCancel, if_neg creator, ← rows,
      ← same]
    rfl

/-- Where it does not, rows of another transfer go or rows of this one stay. -/
theorem cancelBody_misses (keyed : db.Keyed) (same : db.tables = s.db.tables)
    (missed : ¬ s.spares c (s.client c).decryptBuf.packet.tId) :
    (cancelBody s c db).2.tables ≠ s.afterCancel c (s.client c).decryptBuf.packet.tId := by
  obtain ⟨creator, recipient, others⟩ : ¬ s.isCreator c (s.client c).decryptBuf.packet.tId ∧
      s.isRecipient c (s.client c).decryptBuf.packet.tId ∧
      ¬ s.onlyRecipient c (s.client c).decryptBuf.packet.tId := by
    simpa only [Server.spares, not_or, not_not] using missed
  have absent : (s.client c).decryptBuf.packet.tId ∉ (dbGetTransfer db (s.client c).id).1 :=
    fun member => creator (by rw [Server.isCreator, ← same]; exact mem_dbGetTransfer member)
  simp only [cancelBody, if_neg absent, dbGetTransfer_snd, dbGetCreator_snd]
  generalize (s.client c).decryptBuf.packet.tId = tId at creator recipient others absent
  rw [Server.afterCancel, if_neg creator]
  cases found : (dbGetCreator db.tick.2 (s.client c).id).1.find? (·.tId = tId) with
  | none =>
    intro equal
    obtain ⟨row, held, transfer, client⟩ := recipient
    have rows := congrArg Tables.transferClients equal
    simp only [Database.tick_tables, same] at rows
    have kept := List.filter_eq_self.mp rows.symm row held
    simp [transfer, client] at kept
  | some info =>
    intro equal
    have member := List.mem_of_find?_eq_some found
    obtain rfl : info.tId = tId := by simpa using List.find?_some found
    obtain ⟨-, created⟩ := mem_dbGetCreator member
    refine others ⟨fun row held client => ?_, fun row held transfer => ?_⟩
    · rw [dbClientDelete_works (by exact keyed.works)] at equal
      have rows := congrArg Tables.transferClients equal
      simp only [Database.tick_tables, same] at rows
      by_contra other
      have kept : row ∈ s.db.tables.transferClients.filter fun row =>
          ¬ (row.transferId = info.tId ∧ row.clientId = (s.client c).id) :=
        List.mem_filter.mpr ⟨held, by simp [other]⟩
      rw [← rows] at kept
      simp [client] at kept
    · rw [← same] at held
      have one := keyed.unique row held _ created transfer
      rw [one]
      exact dbGetCreator_ne_zero member

end Body

/-! Packets and runs -/

section Server

variable {s t : Server} {c : Slot} {tId : TransferId} {e : Event}

/-- No queue is too full for the cancels its client gets. -/
def Server.roomFor (s : Server) (c : Slot) (tId : TransferId) : Prop :=
  ∀ i, (s.client i).msgQueue.count + s.cancelsFor c tId i ≤ (s.client i).msgQueue.len

instance (s : Server) (c : Slot) (tId : TransferId) : Decidable (s.roomFor c tId) :=
  inferInstanceAs (Decidable (∀ i, (s.client i).msgQueue.count + s.cancelsFor c tId i ≤ _))

/-- `packet_cancel` does what it is for exactly if the queues have room and it
deletes rows of the transfer only. -/
theorem packetCancel_cancels_iff (tidy : s.db.Tidy) (valid : s.QueuesValid)
    (distinct : s.DistinctIds) :
    (∃ t, packetCancel s c = .ok t ∧ s.Cancels c (s.client c).decryptBuf.packet.tId t) ↔
      s.roomFor c (s.client c).decryptBuf.packet.tId ∧
        s.spares c (s.client c).decryptBuf.packet.tId := by
  have sends := packetCancel_sends s c
  let opened : Database := { s.db.tick.2 with saved := some s.db.tables }
  have keyed : opened.Keyed := ⟨⟨tidy.works, tidy.linked, tidy.positive⟩, tidy.unique, tidy.named⟩
  have begun : dbTransaction s.db .begin = (true, opened) := by
    rw [dbTransaction_begin, if_pos ⟨tidy.works _, tidy.closed⟩]
  have plan : (cancelPlan s c).1 = (cancelBody s c opened).1 := by
    simp only [cancelPlan, inTransaction, begun, if_true]
  have tables : (cancelPlan s c).2.tables = (cancelBody s c opened).2.tables := by
    simp only [cancelPlan, inTransaction, begun, if_true, dbTransaction_commit_tables]
  have fits (fulfils : s.Fulfils c (s.client c).decryptBuf.packet.tId (cancelBody s c opened)) :
      s.Fits (cancelPlan s c).1 ↔ s.roomFor c (s.client c).decryptBuf.packet.tId := by
    simp only [Server.Fits, Server.roomFor, plan, fulfils.counts]
  constructor
  · rintro ⟨t, done, cancels⟩
    have spares : s.spares c (s.client c).decryptBuf.packet.tId := by
      by_contra missed
      refine cancelBody_misses keyed rfl missed ?_
      rw [done] at sends
      rw [← tables, ← sends.db_ok]
      exact cancels.tables
    have fulfils := cancelBody_fulfils keyed rfl distinct spares
    refine ⟨(fits fulfils).mp ?_, spares⟩
    rcases sends.cases valid.bounded with ⟨room, -⟩ | ⟨-, u, failed⟩
    · exact room
    · rw [done] at failed
      cases failed
  · rintro ⟨room, spares⟩
    have fulfils := cancelBody_fulfils keyed rfl distinct spares
    rcases sends.cases valid.bounded with ⟨-, t, done⟩ | ⟨large, -⟩
    · refine ⟨t, done, .of_tables ?_ fun i => ?_⟩
      · have left := sends
        rw [done] at left
        rw [left.db_ok, tables]
        exact fulfils.tables
      · have told := sends.told valid done (plan ▸ fulfils.cancels) i
        rwa [plan, fulfils.counts] at told
    · exact absurd ((fits fulfils).mpr room) large

/-- A cancel that arrives while ids are distinct does what it is for. -/
def cancelsTarget (s : Server) (e : Event) : Prop :=
  s.DistinctIds → ∀ c t, s.delivers e = some (c, t) →
    (t.client c).decryptBuf.packet.type? = some .transferCancel →
    ∃ u, step s e = .ok u ∧ t.Cancels c (t.client c).decryptBuf.packet.tId u

/-- A cancel that arrives while ids are distinct finds room for its packets, and
comes from the creator, from a stranger, or from a recipient of nothing else. -/
def cancelSpares (s : Server) (e : Event) : Prop :=
  s.DistinctIds → ∀ c t, s.delivers e = some (c, t) →
    (t.client c).decryptBuf.packet.type? = some .transferCancel →
    t.roomFor c (t.client c).decryptBuf.packet.tId ∧
      t.spares c (t.client c).decryptBuf.packet.tId

instance (s : Server) (e : Event) : Decidable (cancelSpares s e) :=
  decidable_of_iff (s.DistinctIds → ∀ x ∈ s.delivers e,
      (x.2.client x.1).decryptBuf.packet.type? = some .transferCancel →
        x.2.roomFor x.1 (x.2.client x.1).decryptBuf.packet.tId ∧
          x.2.spares x.1 (x.2.client x.1).decryptBuf.packet.tId)
    ⟨fun all distinct c t delivers => all distinct (c, t) delivers,
      fun all distinct x delivers => all distinct x.1 x.2 delivers⟩

theorem Server.DistinctIds.delivered (distinct : s.DistinctIds)
    (delivers : s.delivers e = some (c, t)) : t.DistinctIds := by
  obtain ⟨fd, chunk, buf, -, -, rfl⟩ := delivers_received delivers
  have received : (s.received c buf).DistinctIds := distinct.modify _ id rfl
  exact received

theorem delivered_tidy (tidy : s.db.Tidy) (delivers : s.delivers e = some (c, t)) : t.db.Tidy := by
  obtain ⟨fd, chunk, buf, -, -, rfl⟩ := delivers_received delivers
  exact tidy

/-- The step that handles a cancel does what its handler does. -/
theorem step_cancels (delivers : s.delivers e = some (c, t))
    (cancel : (t.client c).decryptBuf.packet.type? = some .transferCancel) :
    (∃ u, step s e = .ok u ∧ t.Cancels c tId u) ↔
      ∃ u, packetCancel t c = .ok u ∧ t.Cancels c tId u := by
  have handled : analizePacket t c = packetCancel t c := by
    simp only [analizePacket, cancel]
  rw [step_stores_iff (fun _ _ same cancels => cancels.stores same) delivers, handled]

/-- Along every run over a tidy database a cancel affects its transfer only exactly
if every recipient that cancels has rows for no other transfer, the creator it
leaves has an id, and the queues have room. -/
theorem cancels_target_iff {db : Database} (tidy : db.Tidy) (events : List Event) :
    Guarded step cancelsTarget (Server.init db) events ↔
      Guarded step cancelSpares (Server.init db) events := by
  let inv (s : Server) : Prop := s.db.Tidy ∧ s.QueuesValid
  have start : inv (Server.init db) := ⟨tidy, init_queuesValid db⟩
  refine guarded_iff_guarded start (fun s e t held _ taken => ?_) fun s e held => ?_
  · have kept := (held.1.step e).and (held.2.step e)
    rwa [taken] at kept
  · refine forall_congr' fun distinct => forall_congr' fun c => forall_congr' fun t =>
      forall_congr' fun delivers => forall_congr' fun cancel => ?_
    rw [step_cancels delivers cancel]
    exact packetCancel_cancels_iff (delivered_tidy held.1 delivers)
      (held.2.delivered delivers) (distinct.delivered delivers)

end Server

/-- One client asks another `n` times, and the header of the other's cancel has been read. -/
def offered (n : Nat) : List Event :=
  connects 4 100 ++ connects 5 101 ++ packetFrom 4 .clientIntro (introBody 1) ++
    packetFrom 5 .clientIntro (introBody 0) ++
    (List.replicate n (packetFrom 4 .transferRequest (requestBody 101))).flatten ++
    [.recv 5 (Bytes.toLE 4 PacketType.transferCancel.code ++ Bytes.toLE 4 transferStateSize)]

theorem fresh_tidy : Database.fresh.Tidy where
  works := fun _ => rfl
  linked := ⟨nofun, nofun, nofun⟩
  positive := nofun
  unique := nofun
  named := nofun
  closed := rfl

/-- The cancel of the only offer is as it should be, that of one of two is not. -/
theorem cancels_target_iff_offered :
    (Guarded step cancelSpares (Server.init .fresh) (offered 1 ++ [.recv 5 (stateBody 1)]) ∧
      Guarded step cancelsTarget (Server.init .fresh) (offered 1 ++ [.recv 5 (stateBody 1)])) ∧
    ¬ Guarded step cancelSpares (Server.init .fresh) (offered 2 ++ [.recv 5 (stateBody 1)]) ∧
      ¬ Guarded step cancelsTarget (Server.init .fresh) (offered 2 ++ [.recv 5 (stateBody 1)]) := by
  have one : Guarded step cancelSpares (Server.init .fresh)
      (offered 1 ++ [.recv 5 (stateBody 1)]) := by
    decide +kernel
  have two : ¬ Guarded step cancelSpares (Server.init .fresh)
      (offered 2 ++ [.recv 5 (stateBody 1)]) := by
    decide +kernel
  refine ⟨⟨one, (cancels_target_iff fresh_tidy _).mpr one⟩, two, fun held => two ?_⟩
  exact (cancels_target_iff fresh_tidy _).mp held

/-- Cancelling the first transfer deletes the recipient's row for the second. -/
theorem cancels_target_fails :
    ¬ Guarded step cancelsTarget (Server.init .fresh) (offered 2 ++ [.recv 5 (stateBody 1)]) := by
  intro held
  have passed : Run.passes (fun s => (s.delivers (.recv 5 (stateBody 1))).any fun (c, t) =>
      (t.client c).decryptBuf.packet.type? = some .transferCancel ∧
        (t.client c).decryptBuf.packet.tId = 1 ∧
        (∀ i j, s.Live i → s.Live j → (s.client i).id = (s.client j).id → i = j) ∧
        t.db.tables.transferClients.map TransferClientRow.transferId = [1, 2] ∧
        (Run.state (step s (.recv 5 (stateBody 1)))).db.tables.transferClients = [])
      (run step (Server.init .fresh) (offered 2)) = true := by decide +kernel
  obtain ⟨s, reached, check⟩ := Run.passes_ok passed
  obtain ⟨⟨c, t⟩, delivers, found⟩ := (Option.any_eq_true _ _).mp check
  obtain ⟨cancel, target, distinct, rows, gone⟩ := of_decide_eq_true found
  obtain ⟨u, done, cancels⟩ := held.at reached distinct c t delivers cancel
  rw [done] at gone
  have others := congrArg (List.map TransferClientRow.transferId) cancels.clients
  rw [target, show u.db.tables.transferClients = [] from gone] at others
  have two : 2 ∈ (t.db.tables.transferClients.filter (·.transferId ≠ 1)).map
      TransferClientRow.transferId := by
    have listed : (2 : TransferId) ∈ t.db.tables.transferClients.map TransferClientRow.transferId := by
      simp [rows]
    obtain ⟨row, member, same⟩ := List.mem_map.mp listed
    exact List.mem_map.mpr ⟨row, List.mem_filter.mpr ⟨member, by simp [same]⟩, same⟩
  rw [← others] at two
  cases two

end Quickshare
