import Quickshare.Server.Lockstep
import Quickshare.Server.Conservation
import Quickshare.Server.Contents

/-! Stale input. `decrypt_buf` is not cleared between packets, and no handler
compares `hdr.size` with the structure it reads, so a packet shorter than its
structure is completed by bytes of earlier packets. -/

namespace Quickshare

open Runs Bytes

/-- `decrypt_buf` of `c` holds `data`. -/
def Server.withInput (s : Server) (c : Slot) (data : Packet) : Server :=
  s.modify c fun client => { client with decryptBuf := { client.decryptBuf with data } }

/-- The same database, the same clients but for their buffers, and the same
bytes to be transmitted. -/
structure SameOutcome (s t : Server) : Prop where
  db : t.db = s.db
  id : ∀ i, (t.client i).id = (s.client i).id
  state : ∀ i, (t.client i).state = (s.client i).state
  sessionId : ∀ i, (t.client i).sessionId = (s.client i).sessionId
  name : ∀ i, (t.client i).name = (s.client i).name
  queued : ∀ i, (t.client i).queued = (s.client i).queued

/-- Whatever lies in the buffer behind a packet of this type and size, handling
the packet comes out the same. -/
def noStaleInput (type : Option PacketType) (size : Nat) : Prop :=
  ∀ (s : Server) (c : Slot) (data : Packet), (s.client c).decryptBuf.packet.type? = type →
    (s.client c).decryptBuf.packet.size = size →
    data.read 0 (hdrSize + size) = (s.client c).decryptBuf.packet.read 0 (hdrSize + size) →
    Agree SameOutcome SameFault (analizePacket s c) (analizePacket (s.withInput c data) c)

/-- The bytes behind the header that handling a packet of this type looks at;
data, completions and cancels are looked up by their `t_id` alone. -/
def PacketType.needs : Option PacketType → Nat
  | some .clientIntro => introSize
  | some .transferRequest => requestSize
  | some .transferReply => transferReplySize
  | some .transferData | some .transferComplete | some .transferCancel => 8
  | _ => 0

section Input

variable {s t : Server} {c : Slot} {p q : Packet} {k : Nat}

theorem Server.withInput_field {Value : Type} (s : Server) (c : Slot) (data : Packet)
    (get : Client → Value) (blind : ∀ client buf, get { client with decryptBuf := buf } = get client)
    (i : Slot) : get ((s.withInput c data).client i) = get (s.client i) :=
  s.clients.modify_field c _ get (fun client => blind client _) i

theorem Server.withInput_self (s : Server) (c : Slot) (data : Packet) :
    ((s.withInput c data).client c).decryptBuf.packet = data := by
  rw [withInput, client_modify_self]
  rfl

theorem Server.withInput_db (s : Server) (c : Slot) (data : Packet) :
    (s.withInput c data).db = s.db := rfl

theorem Server.withInput_findById (s : Server) (c : Slot) (data : Packet) (id : ClientId) :
    clientFindById (s.withInput c data).clients id = clientFindById s.clients id :=
  ClientList.search_congr fun i => by
    have state := s.withInput_field c data Client.state (fun _ _ => rfl) i
    have same := s.withInput_field c data Client.id (fun _ _ => rfl) i
    simp only [client] at state same
    simp only [state, same]

/-- What packets that agree so far have in common. -/
theorem Packet.size_same (same : Mem.SameTo k p q) (inside : hdrSize ≤ k) : q.size = p.size :=
  same.load inside

theorem Packet.wire_same (same : Mem.SameTo k p q) (inside : hdrSize + p.size ≤ k) :
    q.wire = p.wire := by
  rw [Packet.wire, Packet.size_same same (by omega), same.read (by omega), Packet.wire]

end Input

/-! Queues that transmit the same -/

/-- Cell by cell the same bytes would be transmitted. -/
structure Queue.SameWires (q q' : Queue Packet) : Prop where
  tail : q'.tail = q.tail
  head : q'.head = q.head
  len : q'.len = q.len
  count : q'.count = q.count
  wire : ∀ k, (q'.items k).wire = (q.items k).wire

namespace Queue.SameWires

variable {q q' : Queue Packet} {p p' : Packet}

theorem refl (q : Queue Packet) : q.SameWires q := ⟨rfl, rfl, rfl, rfl, fun _ => rfl⟩

theorem rooms : KeepsRoom Queue.SameWires := fun _ _ same => ⟨same.count, same.len⟩

theorem pushed (same : q.SameWires q') (wire : p'.wire = p.wire) :
    (q.pushed fun _ => p).SameWires (q'.pushed fun _ => p') where
  tail := same.tail
  head := by simp only [Queue.pushed, Queue.fill, same.head, same.len]
  len := same.len
  count := by simp only [Queue.pushed, Queue.fill, same.count]
  wire := fun k => by
    simp only [Queue.pushed, Queue.fill, same.head]
    by_cases here : k = q.head
    · rw [here, Function.update_self, Function.update_self]
      exact wire
    · rw [Function.update_of_ne here, Function.update_of_ne here]
      exact same.wire k

theorem contents (same : q.SameWires q') :
    q'.contents.map Packet.wire = q.contents.map Packet.wire := by
  simp only [Queue.contents, Ring.contents, List.map_map, same.tail, same.len, same.count]
  apply List.map_congr_left
  intro k _
  exact same.wire _

end Queue.SameWires

section Handlers

variable {s u v : Server} {c : Slot} {p q : Packet} {db : Database} {k : Nat}

theorem withInput_queues (s : Server) (c : Slot) (data : Packet) :
    SameQueues Queue.SameWires s (s.withInput c data) := by
  intro i
  rw [s.withInput_field c data Client.msgQueue fun _ _ => rfl]
  exact .refl _

theorem SentAlike.outcome
    (sent : SentAlike Queue.SameWires s (s.withInput c q) db db u v) : SameOutcome u v where
  db := sent.secondDb.trans sent.firstDb.symm
  id := fun i => by
    rw [sent.left.id, sent.right.id, s.withInput_field c q Client.id fun _ _ => rfl]
  state := fun i => by
    rw [sent.left.state, sent.right.state, s.withInput_field c q Client.state fun _ _ => rfl]
  sessionId := fun i => by
    rw [sent.left.sessionId, sent.right.sessionId,
      s.withInput_field c q Client.sessionId fun _ _ => rfl]
  name := fun i => by
    rw [sent.left.field i Client.name fun _ => rfl, sent.right.field i Client.name fun _ => rfl,
      s.withInput_field c q Client.name fun _ _ => rfl]
  queued := fun i => (sent.queues i).contents

/-- Handlers that send packets with the same bytes and leave the same database. -/
theorem Sends.sameOutcome {plan other : Plan} {r r' : Run Server} (left : Sends s plan db r)
    (right : Sends (s.withInput c q) other db r') (both : plan.Alike Queue.SameWires other) :
    Agree SameOutcome SameFault r r' :=
  (left.agree Queue.SameWires.rooms (withInput_queues s c q) both right).mono
    fun _ _ _ _ sent => sent.outcome

/-- Copies of packets with the same bytes for the same clients. -/
theorem copies_alike {Item : Type} (wire : q.wire = p.wire) (data : Packet) (key : Item → ClientId)
    (items : List Item) :
    Plan.Alike Queue.SameWires (toConnected s key (fun _ _ => p) items)
      (toConnected (s.withInput c data) key (fun _ _ => q) items) :=
  toConnected_alike (s.withInput_findById c data) (fun _ _ _ _ same => same.pushed wire) key items

theorem packetData_input (held : (s.client c).decryptBuf.packet = p) (tId : q.tId = p.tId)
    (wire : q.wire = p.wire) :
    Agree SameOutcome SameFault (packetData s c) (packetData (s.withInput c q) c) := by
  have left := packetData_sends s c
  have right := packetData_sends (s.withInput c q) c
  simp only [dataPlan, held] at left
  simp only [dataPlan, s.withInput_self, tId] at right
  exact left.sameOutcome right (copies_alike wire q id _)

theorem packetComplete_input (held : (s.client c).decryptBuf.packet = p) (tId : q.tId = p.tId)
    (wire : q.wire = p.wire) :
    Agree SameOutcome SameFault (packetComplete s c) (packetComplete (s.withInput c q) c) := by
  have left := packetComplete_sends s c
  have right := packetComplete_sends (s.withInput c q) c
  have cId : ((s.withInput c q).client c).id = (s.client c).id :=
    s.withInput_field c q Client.id (fun _ _ => rfl) c
  simp only [completePlan, held] at left
  simp only [completePlan, s.withInput_self, tId, cId] at right
  have db : (s.withInput c q).db = s.db := rfl
  rw [db] at right
  by_cases member : p.tId ∈ (dbGetTransfer s.db (s.client c).id).1
  · simp only [if_pos member] at left right
    exact left.sameOutcome right (copies_alike wire q id _)
  · simp only [if_neg member] at left right
    exact left.sameOutcome right .nil

theorem packetReply_input (held : (s.client c).decryptBuf.packet = p) (tId : q.tId = p.tId)
    (accept : q.replyAccept = p.replyAccept) (same : Mem.SameTo k p q)
    (inside : hdrSize + p.size ≤ k) :
    Agree SameOutcome SameFault (packetReply s c) (packetReply (s.withInput c q) c) := by
  have cId : ((s.withInput c q).client c).id = (s.client c).id :=
    s.withInput_field c q Client.id (fun _ _ => rfl) c
  have creator : replyCreator (s.withInput c q) c = replyCreator s c := by
    simp only [replyCreator, s.withInput_self, held, tId, accept, cId]
    rfl
  have gone_iff : (s.withInput c q).creatorGone c ↔ s.creatorGone c := by
    simp only [Server.creatorGone, creator, s.withInput_findById]
  by_cases gone : s.creatorGone c
  · rw [packetReply_gone gone, packetReply_gone (gone_iff.mpr gone)]
    rfl
  · have left := packetReply_sends gone
    have right := packetReply_sends (mt gone_iff.mp gone)
    have wire : Packet.wire (q.storeInt64 16 (s.client c).id) =
        Packet.wire (p.storeInt64 16 (s.client c).id) := by
      refine Packet.wire_same (same.storeInt64 16 _) ?_
      rwa [Packet.size_storeInt64 _ _ (by decide)]
    simp only [replyPlan, held] at left
    simp only [replyPlan, s.withInput_self, creator, cId] at right
    refine left.sameOutcome right ?_
    split
    · exact .nil
    · exact copies_alike wire q id _

theorem Plan.alike_self (plan : Plan) : Plan.Alike (· = ·) plan plan := by
  induction plan with
  | nil => exact .nil
  | cons head rest ih =>
    refine .cons ⟨rfl, ?_⟩ ih
    rintro q _ _ rfl
    rfl

/-- Handlers that send the very same packets. -/
theorem Sends.sameOutcome_self {plan : Plan} {r r' : Run Server} (left : Sends s plan db r)
    (right : Sends (s.withInput c q) plan db r') : Agree SameOutcome SameFault r r' := by
  have rooms : KeepsRoom (· = ·) := by
    rintro q _ rfl
    exact ⟨rfl, rfl⟩
  have queues : SameQueues (· = ·) s (s.withInput c q) := fun i =>
    (s.withInput_field c q Client.msgQueue (fun _ _ => rfl) i).symm
  refine (left.agree rooms queues plan.alike_self right).mono fun u v _ _ sent => ?_
  refine SentAlike.outcome ⟨fun i => ?_, sent.left, sent.right, sent.firstDb, sent.secondDb⟩
  rw [sent.queues i]
  exact .refl _

theorem packetCancel_input (held : (s.client c).decryptBuf.packet = p) (tId : q.tId = p.tId) :
    Agree SameOutcome SameFault (packetCancel s c) (packetCancel (s.withInput c q) c) := by
  have cId : ((s.withInput c q).client c).id = (s.client c).id :=
    s.withInput_field c q Client.id (fun _ _ => rfl) c
  have body : cancelBody (s.withInput c q) c = cancelBody s c := by
    funext db
    simp only [cancelBody, cancelTransferPlan, leavePlan, toConnected, s.withInput_self, held, tId,
      cId, s.withInput_findById]
  have right := packetCancel_sends (s.withInput c q) c
  simp only [cancelPlan, body] at right
  exact (packetCancel_sends s c).sameOutcome_self right

/-! `packet_transfer` -/

theorem checkRecipients_input {indices : List Nat} (tId : TransferId) (db : Database)
    (recipients : ∀ i ∈ indices, q.hdrTo i = p.hdrTo i) (data : Packet) :
    checkRecipients (s.withInput c data).clients ((s.withInput c data).client c) tId q db indices =
      checkRecipients s.clients (s.client c) tId p db indices := by
  induction indices generalizing db with
  | nil => rfl
  | cons i rest ih =>
    have here := recipients i (List.mem_cons_self ..)
    have later (db : Database) := ih db fun j member => recipients j (List.mem_cons_of_mem _ member)
    have session (r : Slot) : ((s.withInput c data).clients.list r).sessionId =
        (s.clients.list r).sessionId :=
      s.withInput_field c data Client.sessionId (fun _ _ => rfl) r
    have own : ((s.withInput c data).client c).sessionId = (s.client c).sessionId := session c
    have cId (r : Slot) : ((s.withInput c data).clients.list r).id = (s.clients.list r).id :=
      s.withInput_field c data Client.id (fun _ _ => rfl) r
    simp only [checkRecipients, here, later, s.withInput_findById, session, own, cId]

theorem recorded_input (held : (s.client c).decryptBuf.packet = p)
    (recipients : ∀ i ∈ List.range transferClientsMax, q.hdrTo i = p.hdrTo i) :
    (s.withInput c q).recorded c = s.recorded c := by
  have cId : ((s.withInput c q).client c).id = (s.client c).id :=
    s.withInput_field c q Client.id (fun _ _ => rfl) c
  have begun : (s.withInput c q).begun = s.begun := rfl
  simp only [Server.recorded, recordTransfer, begun, cId, s.withInput_self, held,
    checkRecipients_input _ _ recipients q]

theorem debugUsers_same {indices : List Nat} (text : DebugText)
    (recipients : ∀ i ∈ indices, q.hdrTo i = p.hdrTo i) :
    debugUsers q text indices = debugUsers p text indices := by
  induction indices generalizing text with
  | nil => rfl
  | cons i rest ih =>
    have here := recipients i (List.mem_cons_self ..)
    have later (text : DebugText) := ih text fun j member =>
      recipients j (List.mem_cons_of_mem _ member)
    simp only [debugUsers, here, later]

theorem debugTransfer_same (same : Mem.SameTo k p q) (whole : hdrSize + requestSize ≤ k)
    (recipients : ∀ i ∈ List.range transferClientsMax, q.hdrTo i = p.hdrTo i) :
    debugTransfer q = debugTransfer p := by
  have bound : 152 ≤ k := whole
  have fileName : q.fileName = p.fileName := same.read (show 80 + 64 ≤ k by omega)
  have fileSize : q.fileSize = p.fileSize := same.load (show 144 + 8 ≤ k by omega)
  have localId : q.clientTransferId = p.clientTransferId :=
    same.loadInt64 (show 72 + 8 ≤ k by omega)
  simp only [debugTransfer, fileName, fileSize, localId, debugUsers_same _ recipients]

theorem transferResponse_same (same : Mem.SameTo k p q) (whole : hdrSize + requestSize ≤ k)
    (type : PacketType) (tId : TransferId) :
    (transferResponse q type tId).wire = (transferResponse p type tId).wire := by
  have headed : Mem.SameTo k (Packet.packetHdr type requestSize p)
      (Packet.packetHdr type requestSize q) := (same.store 0 4 _).store 4 4 _
  have size : (Packet.packetHdr type requestSize p).size = requestSize :=
    Packet.size_packetHdr type p (by decide)
  unfold transferResponse
  split
  · refine Packet.wire_same (headed.storeInt64 8 tId) ?_
    rw [Packet.size_storeInt64 _ _ (by decide), size]
    exact whole
  · refine Packet.wire_same headed ?_
    rw [size]
    exact whole

theorem hdrTo_same (same : Mem.SameTo k p q) (whole : hdrSize + requestSize ≤ k) :
    ∀ i ∈ List.range transferClientsMax, q.hdrTo i = p.hdrTo i := by
  intro i member
  have bound : 152 ≤ k := whole
  have less : i < 6 := List.mem_range.mp member
  exact same.loadInt64 (show 24 + 8 * i + 8 ≤ k by omega)

theorem grantPlan_alike (same : Mem.SameTo (hdrSize + p.size) p q) (whole : requestSize ≤ p.size)
    (s : Server) (c : Slot) (tId : TransferId) :
    (grantPlan s c p tId).Alike Queue.SameWires (grantPlan (s.withInput c q) c q tId) := by
  have inside : hdrSize + requestSize ≤ hdrSize + p.size := by omega
  have cId : ((s.withInput c q).client c).id = (s.client c).id :=
    s.withInput_field c q Client.id (fun _ _ => rfl) c
  have named : requestIds q (List.range transferClientsMax) =
      requestIds p (List.range transferClientsMax) := by
    rw [requestIds, List.map_congr_left (hdrTo_same same inside), requestIds]
  have wire : Packet.wire ((q.storeInt64 16 (s.client c).id).storeInt64 8 tId) =
      Packet.wire ((p.storeInt64 16 (s.client c).id).storeInt64 8 tId) := by
    refine Packet.wire_same ((same.storeInt64 16 _).storeInt64 8 tId) ?_
    rw [Packet.size_storeInt64 _ _ (by decide), Packet.size_storeInt64 _ _ (by decide)]
  have echoes := copies_alike (s := s) (c := c) wire q id
    (requestIds p (List.range transferClientsMax))
  rw [grantPlan, grantPlan, named, cId, List.singleton_append, List.singleton_append]
  refine .cons ⟨rfl, fun _ _ _ queues => ?_⟩ echoes
  exact queues.pushed (transferResponse_same same inside .transferValid tId)

theorem refusePlan_alike (held : (s.client c).decryptBuf.packet = p)
    (same : Mem.SameTo (hdrSize + p.size) p q) (whole : requestSize ≤ p.size) :
    (refusePlan s c).Alike Queue.SameWires (refusePlan (s.withInput c q) c) := by
  have inside : hdrSize + requestSize ≤ hdrSize + p.size := by omega
  rw [refusePlan, refusePlan, held, s.withInput_self]
  exact .cons ⟨rfl, fun _ _ _ queues =>
    queues.pushed (transferResponse_same same inside .transferInvalid 0)⟩ .nil

theorem packetTransfer_input (held : (s.client c).decryptBuf.packet = p)
    (same : Mem.SameTo (hdrSize + p.size) p q) (whole : requestSize ≤ p.size) :
    Agree SameOutcome SameFault (packetTransfer s c) (packetTransfer (s.withInput c q) c) := by
  have inside : hdrSize + requestSize ≤ hdrSize + p.size := by omega
  have recipients := hdrTo_same same inside
  have recorded := recorded_input held recipients
  have begun : (s.withInput c q).begun = s.begun := rfl
  have refused := refusePlan_alike held same whole
  by_cases started : s.begun.1 = true
  · by_cases granted : (s.recorded c).1 = true
    · have left := packetTransfer_granted started granted
      have right := packetTransfer_granted (s := s.withInput c q) (c := c)
        (by rw [begun, started]) (by rw [recorded, granted])
      rw [recorded, s.withInput_self] at right
      rw [held] at left
      exact left.sameOutcome right (grantPlan_alike same whole s c _)
    · obtain ⟨r, sends, equal⟩ := packetTransfer_refused started (by simpa using granted)
      obtain ⟨r', sends', equal'⟩ := packetTransfer_refused (s := s.withInput c q) (c := c)
        (by rw [begun, started]) (by rw [recorded]; simpa using granted)
      rw [equal, equal']
      rw [recorded] at sends'
      refine (sends.sameOutcome sends' refused).bind fun u v outcome => ?_
      rw [held, s.withInput_self, debugTransfer_same same inside recipients]
      generalize (debugTransfer p).inside = printed
      cases printed
      · rfl
      · exact outcome
  · have left := packetTransfer_busy (s := s) (c := c) (by simpa using started)
    have right := packetTransfer_busy (s := s.withInput c q) (c := c)
      (by rw [begun]; simpa using started)
    rw [begun] at right
    exact left.sameOutcome right refused

/-! `packet_intro` -/

theorem Server.withInput_withInput (s : Server) (c : Slot) (first second : Packet) :
    (s.withInput c first).withInput c second = s.withInput c second := by
  simp [withInput, modify, ClientList.modify]

theorem Server.terminated_eq (s : Server) (c : Slot) :
    s.terminated c = s.withInput c (terminateIntro (s.client c).decryptBuf.packet) := rfl

/-- Changes of one client that do not touch its buffer leave the input as it is. -/
theorem Server.withInput_modify (s : Server) (r : Slot) (data : Packet) (f : Client → Client)
    (blind : ∀ client : Client, f { client with decryptBuf := { client.decryptBuf with data } } =
      { f client with decryptBuf := { (f client).decryptBuf with data } }) :
    (s.withInput c data).modify r f = (s.modify r f).withInput c data := by
  by_cases here : r = c
  · subst here
    simp only [withInput, modify, ClientList.modify, Function.update_self, Function.update_idem,
      blind]
  · simp only [withInput, modify]
    rw [s.clients.modify_comm _ _ (Ne.symm here)]

theorem Server.withInput_pushed (s : Server) (r : Slot) (f : Packet → Packet) (data : Packet) :
    (s.withInput c data).pushed r f = (s.pushed r f).withInput c data := by
  have sessions : (s.withInput c data).sessions = s.sessions := by
    funext i
    simp only [Server.sessions, s.withInput_field c data Client.state fun _ _ => rfl,
      s.withInput_field c data Client.sessionId fun _ _ => rfl]
  have clients := s.withInput_modify (c := c) r data
    (fun client => { client with msgQueue := client.msgQueue.pushed f }) fun _ => rfl
  rw [Server.pushed, clients, sessions]
  rfl

theorem serverResponse_input (s : Server) (c : Slot) (type : PacketType) (data : Packet) :
    Agree (fun u v => v = u.withInput c data) SameFault (serverResponse s c type)
      (serverResponse (s.withInput c data) c type) := by
  have queue : ((s.withInput c data).client c).msgQueue = (s.client c).msgQueue :=
    s.withInput_field c data Client.msgQueue (fun _ _ => rfl) c
  simp only [serverResponse, Server.send_eq, queue]
  split
  · rfl
  · exact s.withInput_pushed c _ data

theorem introPlan_input (s : Server) (c : Slot) (data : Packet) :
    introPlan (s.withInput c data) c
        ((List.finRange maxClients).filter ((s.withInput c data).peer c)) =
      introPlan s c ((List.finRange maxClients).filter (s.peer c)) := by
  have peers : (s.withInput c data).peer c = s.peer c := by
    funext i
    simp only [Server.peer, s.withInput_field c data Client.id fun _ _ => rfl,
      s.withInput_field c data Client.state fun _ _ => rfl,
      s.withInput_field c data Client.sessionId fun _ _ => rfl]
  have others : ((List.finRange maxClients).filter (s.peer c)).map (s.withInput c data).client =
      ((List.finRange maxClients).filter (s.peer c)).map s.client := by
    refine List.map_congr_left fun i member => ?_
    have told := (List.mem_filter.mp member).2
    have other : i ≠ c := by
      rintro rfl
      simp [Server.peer] at told
    exact s.client_modify_of_ne _ other
  have told : singleUserPacket ((s.withInput c data).client c) .serverNewUsers =
      singleUserPacket (s.client c) .serverNewUsers :=
    s.withInput_field c data (singleUserPacket · .serverNewUsers) (fun _ _ => rfl) c
  rw [introPlan, peers, others, told, introPlan]

theorem sendSessionUsers_input (s : Server) (c : Slot) (data : Packet) :
    Agree SameOutcome SameFault (sendSessionUsers s c)
      (sendSessionUsers (s.withInput c data) c) := by
  have right := sendSessionUsers_sends (s.withInput c data) c
  rw [introPlan_input] at right
  exact (sendSessionUsers_sends s c).sameOutcome_self right

theorem introduced_input (held : (s.client c).decryptBuf.packet = p) (same : Mem.SameTo k p q)
    (whole : hdrSize + introSize ≤ k) : (s.withInput c q).introduced c = s.introduced c := by
  have ended : Mem.SameTo k (terminateIntro p) (terminateIntro q) :=
    (same.store 23 1 0).store 39 1 0
  have bound : 48 ≤ k := whole
  have session : (terminateIntro q).introSession = (terminateIntro p).introSession :=
    ended.load (show 40 + 8 ≤ k by omega)
  have name : (terminateIntro q).introId = (terminateIntro p).introId :=
    ended.read (show 24 + 16 ≤ k by omega)
  simp only [Server.introduced, s.withInput_self, held, session, name]
  rfl

theorem packetIntro_input (held : (s.client c).decryptBuf.packet = p) (same : Mem.SameTo k p q)
    (whole : hdrSize + introSize ≤ k) :
    Agree SameOutcome SameFault (packetIntro s c) (packetIntro (s.withInput c q) c) := by
  have bound : 48 ≤ k := whole
  have introSession : q.introSession = p.introSession := same.load (show 40 + 8 ≤ k by omega)
  have ended : Mem.SameTo k (terminateIntro p) (terminateIntro q) :=
    (same.store 23 1 0).store 39 1 0
  have name : (terminateIntro q).introName = (terminateIntro p).introName :=
    ended.read (show 8 + 16 ≤ k by omega)
  have state : ((s.withInput c q).client c).state = (s.client c).state :=
    s.withInput_field c q Client.state (fun _ _ => rfl) c
  have deny (t : Server) (data : Packet) : Agree SameOutcome SameFault
      (serverResponse t c .serverDeny) (serverResponse (t.withInput c data) c .serverDeny) :=
    (serverResponse_sends t c .serverDeny).sameOutcome_self
      (serverResponse_sends (t.withInput c data) c .serverDeny)
  have terminated : (s.withInput c q).terminated c =
      (s.terminated c).withInput c (terminateIntro q) := by
    rw [Server.terminated_eq, Server.terminated_eq, s.withInput_self, s.withInput_withInput,
      s.withInput_withInput]
  have introduced := introduced_input held same whole
  rw [packetIntro_eq, packetIntro_eq, introduced, terminated]
  simp only [s.withInput_self, held, introSession, state, name]
  generalize s.introduced c = opened
  generalize (terminateIntro p).introName = name
  by_cases abnormal : (s.client c).state = .complete ∨ p.introSession > 1
  · rw [if_pos abnormal, if_pos abnormal]
    exact deny s q
  · rw [if_neg abnormal, if_neg abnormal]
    let t : Server := { s.terminated c with db := opened.2 }
    by_cases zero : opened.1 = 0
    · rw [if_pos zero, if_pos zero]
      exact deny t (terminateIntro q)
    · rw [if_neg zero, if_neg zero]
      refine (serverResponse_input t c .serverOk (terminateIntro q)).bind fun u v equal => ?_
      rw [equal, Server.completed, Server.completed, u.withInput_modify _ _ _ fun _ => rfl]
      exact sendSessionUsers_input _ c _

/-- A packet as long as its handler needs is handled by its own bytes alone. -/
theorem noStaleInput_of_needs {type : Option PacketType} {size : Nat}
    (enough : PacketType.needs type ≤ size) : noStaleInput type size := by
  rintro s c data rfl rfl agrees
  have same : Mem.SameTo (hdrSize + (s.client c).decryptBuf.packet.size)
      (s.client c).decryptBuf.packet data := .of_read agrees
  have wire : data.wire = (s.client c).decryptBuf.packet.wire :=
    Packet.wire_same same (Nat.le_refl _)
  have type : data.type? = (s.client c).decryptBuf.packet.type? := by
    rw [Packet.type?, same.load (by simp only [hdrSize]; omega), Packet.type?]
  have tId (needed : 8 ≤ (s.client c).decryptBuf.packet.size) :
      data.tId = (s.client c).decryptBuf.packet.tId :=
    same.loadInt64 (by simp only [hdrSize]; omega)
  unfold analizePacket
  rw [s.withInput_self, type]
  cases kind : (s.client c).decryptBuf.packet.type? with
  | none => exact (Sends.done s s.db).sameOutcome_self (.done (s.withInput c data) s.db)
  | some kind' =>
    rw [kind] at enough
    cases kind' with
    | clientIntro => exact packetIntro_input rfl same (Nat.add_le_add_left enough _)
    | transferRequest => exact packetTransfer_input rfl same enough
    | transferReply =>
      have bound : 65 ≤ (s.client c).decryptBuf.packet.size := enough
      have accept : data.replyAccept = (s.client c).decryptBuf.packet.replyAccept :=
        same.load (by simp only [hdrSize]; omega)
      exact packetReply_input rfl (tId (by omega)) accept same (Nat.le_refl _)
    | transferData => exact packetData_input rfl (tId enough) wire
    | transferComplete => exact packetComplete_input rfl (tId enough) wire
    | transferCancel => exact packetCancel_input rfl (tId enough)
    | _ => exact (Sends.done s s.db).sameOutcome_self (.done (s.withInput c data) s.db)

end Handlers

/-! Shorter packets -/

/-- Two clients in a session, the second of which accepted a file of the first,
and a third without a session. -/
def deskRun : List Event :=
  connects 4 100 ++ connects 5 101 ++ connects 6 102 ++
    packetFrom 4 .clientIntro (introBody 1) ++ packetFrom 5 .clientIntro (introBody 0) ++
    packetFrom 4 .transferRequest (requestBody 101) ++ packetFrom 5 .transferReply (acceptBody 1)

def desk : Server := Run.state (run step (Server.init .fresh) deskRun)

section Short

variable {s : Server} {i : Slot} {type : PacketType} {size : Nat}

/-- A header does not reach what is behind it. -/
theorem Packet.byte_packetHdr (type : PacketType) (size : Nat) (body : Packet)
    (behind : hdrSize ≤ k) : Mem.byte (Packet.packetHdr type size body) k = body.byte k := by
  have reach : 8 ≤ k := behind
  rw [Packet.packetHdr, Mem.store, Mem.byte_write_outside _ _ (.inr (by simpa using reach)),
    Mem.store, Mem.byte_write_outside _ _ (.inr (by simp; omega))]

theorem Packet.read_packetHdr (type : PacketType) (size : Nat) (body : Packet)
    (behind : hdrSize ≤ k) : Mem.read (Packet.packetHdr type size body) k w = body.read k w := by
  apply List.map_congr_left
  intro j _
  exact byte_packetHdr type size body (by omega)

theorem Packet.read_packetHdr_write (type : PacketType) (size : Nat) (body : Packet) (off : Nat)
    (bytes : List UInt8) (behind : hdrSize ≤ k) :
    Mem.read ((Packet.packetHdr type size body).write off bytes) k w =
      Mem.read (body.write off bytes) k w := by
  apply List.map_congr_left
  intro j _
  rw [Mem.byte_write, Mem.byte_write, byte_packetHdr type size body (by omega)]

theorem type?_short (type : PacketType) (size : Nat) (body : Packet) (off : Nat)
    (bytes : List UInt8) (behind : hdrSize ≤ off) :
    Packet.type? ((Packet.packetHdr type size body).write off bytes) = some type := by
  have reach : 8 ≤ off := behind
  rw [Packet.type?, Mem.load_write_apart _ _ (.inl (by omega))]
  exact Packet.type?_packetHdr type size body

/-- The handler of a type does different things for one byte the header does
not announce. -/
theorem stale_of_differs {handler : Server → Slot → Run Server}
    (handled : ∀ s c, (s.client c).decryptBuf.packet.type? = some type →
      analizePacket s c = handler s c) (s : Server) (c : Slot) (body : Packet) (off : Nat)
    (v : UInt8) (behind : hdrSize + size ≤ off) (small : size < 256 ^ 4)
    (differs : ¬ Agree SameOutcome SameFault
      (handler (s.withInput c (Packet.packetHdr type size body)) c)
      (handler (s.withInput c ((Packet.packetHdr type size body).write off [v])) c)) :
    ¬ noStaleInput (some type) size := by
  intro free
  have both := free (s.withInput c (Packet.packetHdr type size body)) c
    ((Packet.packetHdr type size body).write off [v])
  rw [handled _ _ (by rw [s.withInput_self, Packet.type?_packetHdr]), s.withInput_self,
    s.withInput_withInput,
    handled _ _ (by rw [s.withInput_self, type?_short _ _ _ _ _ (by omega)])] at both
  refine differs (both (Packet.type?_packetHdr type size body)
    (Packet.size_packetHdr type body small) ?_)
  exact (Mem.sameTo_write _ [v] behind).read (by omega)

/-- Both sides go on, to different states. -/
theorem differs_of_ok {r r' : Run Server} {t t' : Server} (left : r = .ok t) (right : r' = .ok t')
    (apart : ¬ SameOutcome t t') : ¬ Agree SameOutcome SameFault r r' := by
  subst left right
  exact apart

/-- One side tells a client something, the other sends nothing. -/
theorem differs_of_told {c : Slot} {p q : Packet} {plan : Plan} {db db' : Database} {r r' : Run Server}
    (left : Sends (s.withInput c p) plan db r) (right : Sends (s.withInput c q) [] db' r')
    (told : i ∈ plan.map Prod.fst) : ¬ Agree SameOutcome SameFault r r' := by
  intro both
  rw [right.nothing] at both
  cases r with
  | error failed => cases both
  | ok u =>
    have queued := congrArg List.length (both.queued i)
    have grown := left.count i
    have some := List.count_pos_iff.mpr told
    have queue (data : Packet) : ((s.withInput c data).client i).msgQueue = (s.client i).msgQueue :=
      s.withInput_field c data Client.msgQueue (fun _ _ => rfl) i
    have same : (Server.client { s.withInput c q with db := db' } i).msgQueue =
        (s.client i).msgQueue := queue q
    simp only [Client.queued, List.length_map, Queue.contents_length, same] at queued
    rw [queue p] at grown
    omega

/-- Both sides send one packet to the same client, with other bytes. -/
theorem differs_of_sent {p q m m' : Packet} {db db' : Database} {r r' : Run Server}
    (left : Sends (s.withInput c p) [(i, fun _ => m)] db r)
    (right : Sends (s.withInput c q) [(i, fun _ => m')] db' r')
    (valid : (s.client i).msgQueue.Valid) (room : (s.client i).msgQueue.full ≠ true)
    (apart : m'.wire ≠ m.wire) : ¬ Agree SameOutcome SameFault r r' := by
  have queue (data : Packet) : ((s.withInput c data).client i).msgQueue = (s.client i).msgQueue :=
    s.withInput_field c data Client.msgQueue (fun _ _ => rfl) i
  have sent (data m : Packet) : ((s.withInput c data).pushed i fun _ => m).client i =
      { (s.withInput c data).client i with
        msgQueue := ((s.withInput c data).client i).msgQueue.pushed fun _ => m } :=
    Server.client_modify_self _ i fun client =>
      { client with msgQueue := client.msgQueue.pushed fun _ => m }
  have queued (data m : Packet) : (((s.withInput c data).pushed i fun _ => m).client i).queued =
      (s.client i).queued ++ [m.wire] := by
    rw [sent, Client.queued, queue, valid.pushed_contents room, List.map_append]
    rfl
  rw [left.single (by rwa [queue]), right.single (by rwa [queue])]
  intro both
  have same : (((s.withInput c q).pushed i fun _ => m').client i).queued =
      (((s.withInput c p).pushed i fun _ => m).client i).queued := both.queued i
  rw [queued, queued] at same
  exact apart (List.singleton_inj.mp (List.append_cancel_left same))

end Short

/-- `t_id` 1 and nothing else. -/
def firstTransfer : Packet := (Mem.zero packetMaxSize).store 8 8 1

theorem firstTransfer_tId (type : PacketType) (size : Nat) :
    (Packet.packetHdr type size firstTransfer).tId = 1 := by
  rw [Packet.tId, Mem.loadInt64, Mem.load, Packet.read_packetHdr _ _ _ (by decide)]
  decide +kernel

theorem firstTransfer_stale (type : PacketType) (size : Nat) :
    Packet.tId ((Packet.packetHdr type size firstTransfer).write 15 [1]) = 72057594037927937 := by
  rw [Packet.tId, Mem.loadInt64, Mem.load, Packet.read_packetHdr_write _ _ _ _ _ (by decide)]
  decide +kernel

/-- What the lookups of a packet of the first client see. -/
structure AtDesk (s : Server) : Prop where
  db : s.db = desk.db
  id : (s.client 0).id = 100
  found : clientFindById s.clients 101 = some 1

theorem atDesk (data : Packet) : AtDesk (desk.withInput 0 data) where
  db := desk.withInput_db 0 data
  id := by
    rw [desk.withInput_field 0 data Client.id fun _ _ => rfl]
    decide +kernel
  found := by
    rw [desk.withInput_findById]
    decide +kernel

/-- The transfer a packet names is found or not, by a byte it does not announce. -/
theorem short_of_lookup {handler : Server → Slot → Run Server}
    {plan : Server → Slot → Plan × Database} (short : size < 8)
    (handled : ∀ s c, (s.client c).decryptBuf.packet.type? = some type →
      analizePacket s c = handler s c)
    (sends : ∀ s c, Sends s (plan s c).1 (plan s c).2 (handler s c))
    (told : ∀ s, AtDesk s → (s.client 0).decryptBuf.packet.tId = 1 →
      1 ∈ (plan s 0).1.map Prod.fst)
    (quiet : ∀ s, AtDesk s → (s.client 0).decryptBuf.packet.tId = 72057594037927937 →
      (plan s 0).1 = []) : ¬ noStaleInput (some type) size := by
  let p := Packet.packetHdr type size firstTransfer
  let q : Packet := p.write 15 [1]
  have left := sends (desk.withInput 0 p) 0
  have right := sends (desk.withInput 0 q) 0
  rw [quiet _ (atDesk q) (by rw [desk.withInput_self, firstTransfer_stale])] at right
  have differs := differs_of_told left right
    (told _ (atDesk p) (by rw [desk.withInput_self, firstTransfer_tId]))
  refine stale_of_differs handled desk 0 firstTransfer 15 1 ?_ ?_ differs
  · simp only [hdrSize]
    omega
  · omega

theorem packetData_short (short : size < 8) : ¬ noStaleInput (some .transferData) size := by
  have accepted : (dbGetClientAllAccepted desk.db 1).1 = [101] := by decide +kernel
  have unknown : (dbGetClientAllAccepted desk.db 72057594037927937).1 = [] := by decide +kernel
  refine short_of_lookup short (fun s c type => by rw [analizePacket, type]) packetData_sends
    (fun s here tId => ?_) fun s here tId => ?_
  · simp only [dataPlan, relayPlan, tId, here.db, accepted]
    exact mem_toConnected.mpr ⟨101, List.mem_singleton_self _, here.found⟩
  · simp only [dataPlan, relayPlan, tId, here.db, unknown]
    rfl

theorem packetComplete_short (short : size < 8) :
    ¬ noStaleInput (some .transferComplete) size := by
  have created : (dbGetTransfer desk.db 100).1 = [1] := by decide +kernel
  have accepted : (dbGetClientAllAccepted (dbGetTransfer desk.db 100).2 1).1 = [101] := by
    decide +kernel
  refine short_of_lookup short (fun s c type => by rw [analizePacket, type]) packetComplete_sends
    (fun s here tId => ?_) fun s here tId => ?_
  · simp only [completePlan, relayPlan, tId, here.db, here.id, created, accepted,
      List.mem_singleton, if_true]
    exact mem_toConnected.mpr ⟨101, List.mem_singleton_self _, here.found⟩
  · simp only [completePlan, tId, here.db, here.id, created]
    rfl

theorem packetCancel_short (short : size < 8) : ¬ noStaleInput (some .transferCancel) size := by
  have begun : (dbTransaction desk.db .begin).1 = true := by decide +kernel
  have created : (dbGetTransfer (dbTransaction desk.db .begin).2 100).1 = [1] := by decide +kernel
  have listed : (dbGetClientAll (dbGetTransfer (dbTransaction desk.db .begin).2 100).2 1).1 =
    [101] := by decide +kernel
  have alone : (dbGetCreator (dbGetTransfer (dbTransaction desk.db .begin).2 100).2 100).1 =
    [] := by decide +kernel
  refine short_of_lookup short (fun s c type => by rw [analizePacket, type]) packetCancel_sends
    (fun s here tId => ?_) fun s here tId => ?_
  · simp only [cancelPlan, inTransaction, cancelBody, cancelTransferPlan, tId, here.db, here.id,
      begun, created, listed, List.mem_singleton, if_true]
    exact mem_toConnected.mpr ⟨101, List.mem_singleton_self _, here.found⟩
  · simp only [cancelPlan, inTransaction, cancelBody, tId, here.db, here.id, begun, created,
      alone]
    rfl

theorem desk_room (data : Packet) (c i : Slot) :
    ((desk.withInput c data).client i).msgQueue.full ≠ true := by
  have queue := desk.withInput_field c data Client.msgQueue (fun _ _ => rfl) i
  have room : ∀ i : Slot, (desk.client i).msgQueue.full = false := by decide +kernel
  rw [queue, room i]
  simp

/-- A reply of the second client to the transfer on the desk is passed on. -/
theorem desk_reply {data : Packet} {accept : Bool}
    (creator : replyCreator (desk.withInput 1 data) 1 =
      dbGetCreatorByTid (dbClientAccept desk.db 101 1 accept) 1) :
    ∃ t, packetReply (desk.withInput 1 data) 1 = .ok t ∧
      t.db = (dbGetCreatorByTid (dbClientAccept desk.db 101 1 accept) 1).2 := by
  have hosted : (dbGetCreatorByTid (dbClientAccept desk.db 101 1 accept) 1).1 = 100 := by
    cases accept <;> decide +kernel
  have found : clientFindById (desk.withInput 1 data).clients 100 = some 0 := by
    rw [desk.withInput_findById]
    decide +kernel
  have nonzero : (100 : ClientId) ≠ 0 := by decide
  have present : ¬ (desk.withInput 1 data).creatorGone 1 := by
    rw [Server.creatorGone, creator, hosted, found]
    simp
  have sends := packetReply_sends present
  simp only [replyPlan, creator, hosted, if_neg nonzero, toConnected, List.flatMap_singleton, id,
    found, Option.map_some, Option.toList_some] at sends
  have done := sends.single (desk_room data 1 0)
  rw [done] at sends
  exact ⟨_, done, sends.db_ok⟩

/-- The answer a reply gives lies behind what it announces. -/
theorem packetReply_short (short : size < transferReplySize) :
    ¬ noStaleInput (some .transferReply) size := by
  let p := Packet.packetHdr .transferReply size firstTransfer
  let q : Packet := p.write 72 [1]
  have accept : p.replyAccept = 0 := by
    rw [Packet.replyAccept, Mem.load, Packet.read_packetHdr _ _ _ (by decide)]
    decide +kernel
  have accept' : q.replyAccept = 1 := by
    rw [Packet.replyAccept, Mem.load, Packet.read_packetHdr_write _ _ _ _ _ (by decide)]
    decide +kernel
  have tId' : q.tId = 1 := by
    rw [Packet.tId, Mem.loadInt64_write_apart _ _ (.inl (by decide))]
    exact firstTransfer_tId _ _
  have cId (data : Packet) : ((desk.withInput 1 data).client 1).id = 101 := by
    rw [desk.withInput_field 1 data Client.id fun _ _ => rfl]
    decide +kernel
  have left : replyCreator (desk.withInput 1 p) 1 =
      dbGetCreatorByTid (dbClientAccept desk.db 101 1 false) 1 := by
    simp only [replyCreator, desk.withInput_self, desk.withInput_db, cId, accept]
    rw [firstTransfer_tId]
    rfl
  have right : replyCreator (desk.withInput 1 q) 1 =
      dbGetCreatorByTid (dbClientAccept desk.db 101 1 true) 1 := by
    simp only [replyCreator, desk.withInput_self, desk.withInput_db, cId, accept', tId']
    rfl
  obtain ⟨t, done, db⟩ := desk_reply left
  obtain ⟨t', done', db'⟩ := desk_reply right
  have recorded : (dbGetCreatorByTid (dbClientAccept desk.db 101 1 true) 1).2.tables ≠
      (dbGetCreatorByTid (dbClientAccept desk.db 101 1 false) 1).2.tables := by decide +kernel
  have apart : ¬ SameOutcome t t' := fun same => recorded (by rw [← db, ← db', same.db])
  refine stale_of_differs (fun s c type => by rw [analizePacket, type]) desk 1 firstTransfer 72 1
    ?_ ?_ (differs_of_ok done done' apart)
  · simp only [hdrSize, transferReplySize] at short ⊢
    omega
  · simp only [transferReplySize] at short
    omega

/-- The desk while a transaction is open: `BEGIN` fails. -/
def busyDesk : Server := { desk with db := { desk.db with saved := some desk.db.tables } }

/-- The answer to a refused request repeats the whole request. -/
theorem packetTransfer_short (short : size < requestSize) :
    ¬ noStaleInput (some .transferRequest) size := by
  let p := Packet.packetHdr .transferRequest size firstTransfer
  let q : Packet := p.write 151 [1]
  have valid : (busyDesk.client 0).msgQueue.Valid := by
    refine ⟨⟨4, ?_⟩, ?_, ?_, ?_⟩ <;> decide +kernel
  have room : (busyDesk.client 0).msgQueue.full ≠ true := by decide +kernel
  have busy (data : Packet) : (busyDesk.withInput 0 data).begun.1 = false := by
    rw [Server.begun, busyDesk.withInput_db]
    decide +kernel
  have left := packetTransfer_busy (c := 0) (busy p)
  have right := packetTransfer_busy (c := 0) (busy q)
  simp only [refusePlan, busyDesk.withInput_self] at left right
  have size (m : Packet) : Packet.size (transferResponse m .transferInvalid 0) = requestSize :=
    Packet.size_packetHdr .transferInvalid m (by decide)
  have last (m : Packet) : Mem.byte (transferResponse m .transferInvalid 0) 151 = m.byte 151 :=
    Packet.byte_packetHdr .transferInvalid requestSize m (by decide)
  have apart : (transferResponse q .transferInvalid 0).wire ≠
      (transferResponse p .transferInvalid 0).wire := by
    intro same
    rw [Packet.wire, Packet.wire, size, size] at same
    have byte := Mem.SameTo.of_read same 151 (by decide)
    rw [last, last, Mem.byte_write, Packet.byte_packetHdr _ _ _ (by decide)] at byte
    revert byte
    decide +kernel
  have differs := differs_of_sent left right valid room apart
  simp only [requestSize] at short
  refine stale_of_differs (fun s c type => by rw [analizePacket, type]) busyDesk 0 firstTransfer 151
    1 ?_ ?_ differs
  · simp only [hdrSize]
    omega
  · omega

/-- A session without a name is asked for. -/
def opening : Packet := (Mem.zero packetMaxSize).store 40 8 1

/-- The terminators leave what a header does not reach. -/
theorem Packet.byte_terminateIntro {p q : Packet} {k : Nat} (same : p.byte k = q.byte k) :
    Mem.byte (terminateIntro p) k = Mem.byte (terminateIntro q) k := by
  simp only [terminateIntro, Mem.store, Mem.byte_write, same]

theorem terminateIntro_packetHdr {k w : Nat} (type : PacketType) (size : Nat) (body : Packet)
    (behind : hdrSize ≤ k) : Mem.read (terminateIntro (Packet.packetHdr type size body)) k w =
      (terminateIntro body).read k w := by
  apply List.map_congr_left
  intro j _
  exact Packet.byte_terminateIntro (Packet.byte_packetHdr type size body (by omega))

theorem packetIntro_complete {s : Server} {c : Slot} (normal : ¬ ((s.client c).state = .complete ∨
    (s.client c).decryptBuf.packet.introSession > 1)) (opened : (s.introduced c).1 ≠ 0) :
    Ends (fun t => (t.client c).state = .complete) (fun _ => True) (packetIntro s c) := by
  rw [packetIntro_eq, if_neg normal]
  generalize s.introduced c = introduced at opened
  dsimp only
  rw [if_neg opened]
  have answered : Ends (fun _ => True) (fun _ => True)
      (serverResponse { s.terminated c with db := introduced.2 } c .serverOk) := by
    cases serverResponse { s.terminated c with db := introduced.2 } c .serverOk <;> trivial
  refine answered.bind fun u _ => ?_
  refine (sendSessionUsers_sends _ c).ends.mono (fun t _ same => ?_) fun _ _ => trivial
  rw [same.state, Server.completed, Server.client_modify_self]

/-- One introduction is denied, the other opens a session. -/
theorem differs_of_denied {s : Server} {c : Slot} {p q : Packet}
    (state : (s.client c).state ≠ .complete) (room : (s.client c).msgQueue.full ≠ true)
    (normal : p.introSession ≤ 1)
    (opened : ((s.withInput c p).introduced c).1 ≠ 0) (abnormal : q.introSession > 1) :
    ¬ Agree SameOutcome SameFault (packetIntro (s.withInput c p) c)
      (packetIntro (s.withInput c q) c) := by
  have before (data : Packet) : ((s.withInput c data).client c).state = (s.client c).state :=
    s.withInput_field c data Client.state (fun _ _ => rfl) c
  have left : Ends (fun t => (t.client c).state = .complete) (fun _ => True)
      (packetIntro (s.withInput c p) c) := by
    refine packetIntro_complete ?_ opened
    rw [before, s.withInput_self, not_or]
    exact ⟨state, by omega⟩
  have right : packetIntro (s.withInput c q) c = serverResponse (s.withInput c q) c .serverDeny := by
    rw [packetIntro_eq, if_pos]
    rw [s.withInput_self]
    exact .inr abnormal
  have queue : ((s.withInput c q).client c).msgQueue = (s.client c).msgQueue :=
    s.withInput_field c q Client.msgQueue (fun _ _ => rfl) c
  have denied := serverResponse_sends (s.withInput c q) c .serverDeny
  have space : ((s.withInput c q).client c).msgQueue.full ≠ true := by
    rw [queue]
    exact room
  obtain ⟨t', sent⟩ : ∃ t', serverResponse (s.withInput c q) c .serverDeny = .ok t' :=
    ⟨_, denied.single space⟩
  rw [sent] at denied
  have kept : (t'.client c).state = (s.client c).state := (denied.same_ok.state c).trans (before q)
  rw [right, sent]
  generalize packetIntro (s.withInput c p) c = r at left
  intro both
  cases r with
  | error failed => cases both
  | ok t =>
    have same : (t'.client c).state = (t.client c).state := both.state c
    have complete : (t.client c).state = .complete := left
    exact state (kept.symm.trans (same.trans complete))

/-- The session an introduction asks for lies behind what it announces. -/
theorem packetIntro_short (short : size < introSize) : ¬ noStaleInput (some .clientIntro) size := by
  let p := Packet.packetHdr .clientIntro size opening
  let q : Packet := p.write 47 [1]
  have state : (desk.client 2).state ≠ .complete := by decide +kernel
  have room : (desk.client 2).msgQueue.full ≠ true := by decide +kernel
  have session : p.introSession ≤ 1 := by
    rw [Packet.introSession, Mem.load, Packet.read_packetHdr _ _ _ (by decide)]
    decide +kernel
  have session' : q.introSession > 1 := by
    rw [Packet.introSession, Mem.load, Packet.read_packetHdr_write _ _ _ _ _ (by decide)]
    decide +kernel
  have asked : (terminateIntro p).introSession = 1 := by
    rw [Packet.introSession, Mem.load, terminateIntro_packetHdr _ _ _ (by decide)]
    decide +kernel
  have name : cString (terminateIntro p).introId = [] := by
    rw [Packet.introId, terminateIntro_packetHdr _ _ _ (by decide)]
    decide +kernel
  have opened : ((desk.withInput 2 p).introduced 2).1 ≠ 0 := by
    simp only [Server.introduced, desk.withInput_self, desk.withInput_db, name, asked]
    decide +kernel
  have differs := differs_of_denied state room session opened session'
  simp only [introSize] at short
  refine stale_of_differs (fun s c type => by rw [analizePacket, type]) desk 2 opening 47 1 ?_ ?_
    differs
  · simp only [hdrSize]
    omega
  · omega

/-- Handling a packet depends on nothing behind it exactly if it announces all
that its handler reads. -/
theorem no_stale_input_iff (type : Option PacketType) (size : Nat) :
    noStaleInput type size ↔ PacketType.needs type ≤ size := by
  refine ⟨fun free => ?_, noStaleInput_of_needs⟩
  by_contra less
  have short : size < PacketType.needs type := by omega
  cases type with
  | none => cases short
  | some kind =>
    cases kind with
    | clientIntro => exact packetIntro_short short free
    | transferRequest => exact packetTransfer_short short free
    | transferReply => exact packetReply_short short free
    | transferData => exact packetData_short short free
    | transferComplete => exact packetComplete_short short free
    | transferCancel => exact packetCancel_short short free
    | _ => cases short

/-- A data packet of a bare header goes to the recipients of an earlier one. -/
theorem bare_data_stale : ¬ noStaleInput (some .transferData) 0 := packetData_short (by decide)

end Quickshare
