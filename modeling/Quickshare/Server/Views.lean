import Quickshare.Client.Network
import Quickshare.Lib.Lists
import Quickshare.Server.Cancelling
import Quickshare.Server.Contents
import Quickshare.Server.Identity
import Quickshare.Server.Leaving
import Quickshare.Server.WriteLoop
import Mathlib.Data.List.Induction

/-! Views of a session. A client is told who is in its session by a batch when it
joins and by one packet for each client that joins or leaves later; what it makes
of them is the session as it is, if the batch was counted from zero. -/

namespace Quickshare

open Runs Bytes

/-! What a client makes of a packet -/

/-- What the client makes of a packet of the server about users. -/
def heed (users : List User) (p : Packet) : List User :=
  match p.type? with
  | some .serverNewUsers => addUsers users p
  | some .serverDelUsers => removeUser users p
  | _ => users

/-- The users known after some packets. -/
def viewOf (packets : List Packet) : List User := packets.foldl heed []

/-- The packet is not about users. -/
def Packet.silent (p : Packet) : Prop :=
  p.type? ≠ some .serverNewUsers ∧ p.type? ≠ some .serverDelUsers

def Client.user (c : Client) : User := ⟨c.name, c.id⟩

section Packets

variable {users : List User} {p : Packet} {packets : List Packet} {client : Client}

theorem heed_silent (silent : p.silent) (users : List User) : heed users p = users := by
  unfold heed
  split
  · rename_i type
    exact absurd type silent.1
  · rename_i type
    exact absurd type silent.2
  · rfl

theorem viewOf_append (first second : List Packet) :
    viewOf (first ++ second) = second.foldl heed (viewOf first) :=
  List.foldl_append

theorem viewOf_silent (log : List Packet) (silent : ∀ p ∈ packets, p.silent) :
    viewOf (log ++ packets) = viewOf log := by
  rw [viewOf_append]
  induction packets with
  | nil => rfl
  | cons p rest ih =>
    rw [List.foldl_cons, heed_silent (silent p (List.mem_cons_self ..))]
    exact ih fun p member => silent p (List.mem_cons_of_mem _ member)

theorem Packet.silent.of_type {type : PacketType} (same : p.type? = some type)
    (new : type ≠ .serverNewUsers) (gone : type ≠ .serverDelUsers) : p.silent := by
  constructor <;> rw [same] <;> simpa

/-- The users a packet lists. -/
def Packet.listedUsers (p : Packet) : List User :=
  (List.range p.newUsersLen).map fun i => ⟨p.newUsersName i, p.newUsersId i⟩

theorem heed_newUsers (type : p.type? = some .serverNewUsers) (users : List User) :
    heed users p = users ++ p.listedUsers := by
  simp only [heed, type]
  rfl

theorem heed_delUsers (type : p.type? = some .serverDelUsers) (users : List User) :
    heed users p = users.eraseP (·.id = p.delUserId) := by
  simp only [heed, type]
  rfl

theorem addUser_type (p : Packet) (entry : Client × Nat) : (addUser p entry).type? = p.type? := by
  rw [addUser, Packet.type?_store _ _ _ (by decide), Packet.type?_storeInt64 _ _ (by omega),
    Packet.type?_write _ _ (by omega)]

theorem addUser_len (p : Packet) (entry : Client × Nat) :
    (addUser p entry).newUsersLen = (p.newUsersLen + 1) % 256 :=
  Mem.load_store _ (by decide)

theorem addUser_name (p : Packet) {i k : Nat} (room : k < clientListLen)
    (named : client.name.length = pcNameMaxLen) (listed : i ≤ k) :
    (addUser p (client, k)).newUsersName i = if i = k then client.name else p.newUsersName i := by
  have most : k < 32 := room
  have length : client.name.length = 16 := named
  rw [Packet.newUsersName, addUser, Mem.read_store_apart _ (.inl (by simp only [pcNameMaxLen]; omega)),
    Mem.storeInt64, Mem.read_store_apart _ (.inl (by simp only [pcNameMaxLen]; omega))]
  by_cases here : i = k
  · subst here
    have stored := p.read_write client.name
      (show 8 + pcNameMaxLen * i + client.name.length ≤ packetMaxSize by
        simp only [pcNameMaxLen, packetMaxSize]; omega)
    rw [if_pos rfl, ← named]
    rwa [named] at stored ⊢
  · rw [if_neg here, Mem.read_write_apart _ _ (.inl (by simp only [pcNameMaxLen]; omega)),
      Packet.newUsersName]

theorem addUser_id (p : Packet) {i k : Nat} (room : k < clientListLen)
    (named : client.name.length = pcNameMaxLen) (listed : i ≤ k) :
    (addUser p (client, k)).newUsersId i = if i = k then client.id else p.newUsersId i := by
  have most : k < 32 := room
  have length : client.name.length = 16 := named
  rw [Packet.newUsersId, addUser, Mem.loadInt64_store_apart _ (.inl (by omega))]
  by_cases here : i = k
  · subst here
    rw [if_pos rfl, Mem.loadInt64_storeInt64 _ (by simp only [packetMaxSize]; omega)]
  · rw [if_neg here, Mem.storeInt64, Mem.loadInt64_store_apart _ (.inl (by omega)),
      Mem.loadInt64_write_apart _ _ (.inr (by simp only [pcNameMaxLen]; omega)), Packet.newUsersId]

/-- An entry written behind those a packet lists is listed last. -/
theorem addUser_listed (room : p.newUsersLen < clientListLen)
    (named : client.name.length = pcNameMaxLen) :
    (addUser p (client, p.newUsersLen)).listedUsers = p.listedUsers ++ [client.user] := by
  have most : p.newUsersLen < 32 := room
  have longer : (addUser p (client, p.newUsersLen)).newUsersLen = p.newUsersLen + 1 := by
    rw [addUser_len, Nat.mod_eq_of_lt (by omega)]
  rw [Packet.listedUsers, longer, List.range_succ, List.map_append, List.map_singleton,
    addUser_name p room named le_rfl, addUser_id p room named le_rfl, if_pos rfl, if_pos rfl]
  congr 1
  refine List.map_congr_left fun i member => ?_
  have less : i < p.newUsersLen := List.mem_range.mp member
  rw [addUser_name p room named less.le, addUser_id p room named less.le, if_neg less.ne,
    if_neg less.ne]

theorem newUsersPacket_type (users : List Client) (old : Packet) :
    (newUsersPacket users old).type? = some .serverNewUsers := by
  induction users using List.reverseRecOn with
  | nil => exact Packet.type?_packetHdr ..
  | append_singleton rest user ih =>
    rw [newUsersPacket_concat, Function.comp_apply, addUser_type, ih]

/-- A batch lists its users if the slot it is built in counts none. -/
theorem newUsersPacket_listed {old : Packet} (clean : old.newUsersLen = 0) (users : List Client)
    (few : users.length ≤ clientListLen)
    (named : ∀ user ∈ users, user.name.length = pcNameMaxLen) :
    (newUsersPacket users old).newUsersLen = users.length ∧
      (newUsersPacket users old).listedUsers = users.map Client.user := by
  induction users using List.reverseRecOn with
  | nil =>
    have zero : (newUsersPacket [] old).newUsersLen = 0 := by
      rw [← clean]
      exact (Mem.load_store_apart _ (.inr (by decide))).trans
        (Mem.load_store_apart _ (.inr (by decide)))
    exact ⟨zero, by rw [Packet.listedUsers, zero]; rfl⟩
  | append_singleton rest user ih =>
    rw [List.length_append, List.length_singleton] at few
    have most : clientListLen = 32 := rfl
    obtain ⟨length, listed⟩ := ih (by omega) fun user member =>
      named user (List.mem_append_left _ member)
    have room : (newUsersPacket rest old).newUsersLen < clientListLen := by omega
    rw [newUsersPacket_concat, Function.comp_apply, ← length]
    refine ⟨?_, ?_⟩
    · rw [addUser_len, length, Nat.mod_eq_of_lt (by omega), List.length_append,
        List.length_singleton]
    · rw [addUser_listed room (named user (by simp)), listed, List.map_append, List.map_singleton]

theorem singleUser_new (client : Client) (named : client.name.length = pcNameMaxLen) :
    (singleUserPacket client .serverNewUsers).type? = some .serverNewUsers ∧
      (singleUserPacket client .serverNewUsers).listedUsers = [client.user] := by
  have length : client.name.length = 16 := named
  let body := ((Packet.packetHdr .serverNewUsers newUsersSize (Mem.zero packetMaxSize)).store
    776 1 1).storeInt64 520 client.id
  have built : singleUserPacket client .serverNewUsers = body.write 8 client.name := rfl
  have type : Packet.type? body = some .serverNewUsers := by
    rw [Packet.type?_storeInt64 _ _ (by decide), Packet.type?_store _ _ _ (by decide),
      Packet.type?_packetHdr]
  have one : Packet.newUsersLen (body.write 8 client.name) = 1 := by
    have counted : Packet.newUsersLen body = 1 :=
      (Mem.load_store_apart _ (.inr (by decide))).trans (Mem.load_store _ (by decide))
    rwa [Packet.newUsersLen, Mem.load_write_apart _ _ (.inr (by omega))]
  have name : Packet.newUsersName (body.write 8 client.name) 0 = client.name := by
    have stored := body.read_write client.name (show 8 + client.name.length ≤ packetMaxSize by
      simp only [packetMaxSize]; omega)
    rwa [named] at stored
  have id : Packet.newUsersId (body.write 8 client.name) 0 = client.id := by
    rw [Packet.newUsersId, Mem.loadInt64_write_apart _ _ (.inr (by omega))]
    exact Mem.loadInt64_storeInt64 _ (by decide)
  rw [built, Packet.listedUsers, one]
  refine ⟨(Packet.type?_write _ _ (by decide)).trans type, ?_⟩
  simp [name, id, Client.user]

theorem singleUser_gone (client : Client) (named : client.name.length = pcNameMaxLen) :
    (singleUserPacket client .serverDelUsers).type? = some .serverDelUsers ∧
      (singleUserPacket client .serverDelUsers).delUserId = client.id := by
  have length : client.name.length = 16 := named
  let body := (Packet.packetHdr .serverDelUsers delUserSize (Mem.zero packetMaxSize)).storeInt64
    24 client.id
  have built : singleUserPacket client .serverDelUsers = body.write 8 client.name := rfl
  have type : Packet.type? body = some .serverDelUsers := by
    rw [Packet.type?_storeInt64 _ _ (by decide), Packet.type?_packetHdr]
  rw [built]
  refine ⟨(Packet.type?_write _ _ (by decide)).trans type, ?_⟩
  rw [Packet.delUserId, Mem.loadInt64_write_apart _ _ (.inr (by omega))]
  exact Mem.loadInt64_storeInt64 _ (by decide)

end Packets

/-! What a handler enqueues -/

section Posts

variable {s t u : Server} {c i : Slot} {plan first second : Plan} {db : Database}

/-- From `s` to `t` the packets of a plan are enqueued, and nothing leaves a queue. -/
structure Server.Posts (s : Server) (plan : Plan) (t : Server) : Prop where
  sent : ∃ more : List Sent, t.sent = s.sent ++ more ∧ more.map Sent.recipient = plan.map Prod.fst
  queue : ∀ i, (t.client i).msgQueue = (plan.toward i).foldl Queue.pushed (s.client i).msgQueue
  contents : ∀ i, (t.client i).msgQueue.contents =
    (s.client i).msgQueue.contents ++ (s.client i).msgQueue.made (plan.toward i)

namespace Server.Posts

theorem of_queues (queues : ∀ i, (t.client i).msgQueue = (s.client i).msgQueue)
    (sent : t.sent = s.sent) : s.Posts [] t where
  sent := ⟨[], by simpa using sent, rfl⟩
  queue := queues
  contents := fun i => by
    rw [queues i]
    exact (List.append_nil _).symm

theorem trans (one : s.Posts first t) (two : t.Posts second u) : s.Posts (first ++ second) u where
  sent := by
    obtain ⟨before, grown, early⟩ := one.sent
    obtain ⟨after, grown', late⟩ := two.sent
    exact ⟨before ++ after, by rw [grown', grown, List.append_assoc],
      by rw [List.map_append, List.map_append, early, late]⟩
  queue := fun i => by
    rw [two.queue i, one.queue i, Plan.toward_append, List.foldl_append]
  contents := fun i => by
    rw [two.contents i, one.contents i, one.queue i, Plan.toward_append, Queue.made_append,
      List.append_assoc]

/-- Queues apart the states do not matter. -/
theorem congr (posts : s.Posts plan t) {s' t' : Server}
    (before : ∀ i, (s.client i).msgQueue = (s'.client i).msgQueue) (start : s.sent = s'.sent)
    (after : ∀ i, (t'.client i).msgQueue = (t.client i).msgQueue) (last : t'.sent = t.sent) :
    s'.Posts plan t' := by
  have front : s'.Posts [] s := of_queues before start
  have back : t.Posts [] t' := of_queues after last
  simpa using (front.trans posts).trans back

end Server.Posts

theorem Sends.posts {r : Run Server} (sends : Sends s plan db r) (valid : s.QueuesValid)
    (done : r = .ok t) : s.Posts plan t := by
  have contents := sends.contents valid done
  obtain ⟨u, sent, rfl⟩ := sends.ok t done
  refine ⟨?_, fun i => Server.sendAll_queue sent i, contents⟩
  obtain ⟨receivers, grown, -, whole⟩ := s.sendAll_sent plan
  rw [sent] at grown
  refine ⟨_, grown, ?_⟩
  rw [List.map_map, whole u sent]
  exact List.map_id _

/-- No packet of the plan is about users. -/
def Plan.Silent (plan : Plan) : Prop := ∀ send ∈ plan, ∀ old, Packet.silent (send.2 old)

theorem Plan.Silent.append (one : first.Silent) (two : second.Silent) :
    Plan.Silent (first ++ second) := fun send member =>
  (List.mem_append.mp member).elim (one send) (two send)

theorem Plan.Silent.viewOf (silent : plan.Silent) (log : List Packet) (q : Queue Packet)
    (i : Slot) : Quickshare.viewOf (log ++ q.made (plan.toward i)) = Quickshare.viewOf log := by
  refine viewOf_silent log (Queue.made_forall q fun f member old => ?_)
  obtain ⟨send, listed, rfl⟩ := List.mem_map.mp member
  exact silent send (List.mem_filter.mp listed).1 old

theorem Plan.Silent.toConnected {Item : Type} {key : Item → ClientId}
    {packet : Item → Packet → Packet} {items : List Item}
    (silent : ∀ x ∈ items, ∀ old, Packet.silent (packet x old)) :
    Plan.Silent (toConnected s key packet items) := by
  intro send member old
  obtain ⟨x, listed, found⟩ := List.mem_flatMap.mp member
  cases here : clientFindById s.clients (key x) with
  | none => simp [here] at found
  | some r =>
    obtain rfl : send = (r, packet x) := by simpa [here] using found
    exact silent x listed old

theorem Plan.Silent.single {f : Packet → Packet} (silent : ∀ old, Packet.silent (f old)) :
    Plan.Silent [(i, f)] := by
  intro send member
  rw [List.mem_singleton.mp member]
  exact silent

theorem Plan.Silent.response (c : Slot) {type : PacketType} (new : type ≠ .serverNewUsers)
    (gone : type ≠ .serverDelUsers) : Plan.Silent [(c, Packet.packetHdr type 0)] :=
  .single fun old => .of_type (Packet.type?_packetHdr type 0 old) new gone

theorem transferState_silent (sender : ClientId) (tId : TransferId) (old : Packet) :
    Packet.silent (transferState sender tId .transferCancel old) :=
  .of_type (transferState_cancels sender tId old).1 (by decide) (by decide)

theorem leavePlan_silent (s : Server) (c : Slot) (infos : List TransferInfo) :
    (leavePlan s c infos).Silent :=
  .toConnected fun _ _ old => transferState_silent _ _ old

theorem cancelTransferPlan_silent (s : Server) (c : Slot) (db : Database) (tId : TransferId) :
    (cancelTransferPlan s c db tId).1.Silent :=
  .toConnected fun _ _ old => transferState_silent _ _ old

theorem cancelBody_silent (s : Server) (c : Slot) (db : Database) :
    (cancelBody s c db).1.Silent := by
  unfold cancelBody
  dsimp only
  split
  · exact cancelTransferPlan_silent s c _ _
  · split
    · exact nofun
    · exact leavePlan_silent s c _

theorem cancels_silent (s : Server) (c : Slot) (db : Database) (ids : List TransferId) :
    (foldPlan (cancelTransferPlan s c) db ids).1.Silent := by
  induction ids generalizing db with
  | nil => exact nofun
  | cons tId rest ih => exact (cancelTransferPlan_silent s c db tId).append (ih _)

theorem disconnectBody_silent (s : Server) (c : Slot) (db : Database) :
    (disconnectBody s c db).1.Silent :=
  (cancels_silent s c _ _).append (leavePlan_silent s c _)

theorem inTransaction_silent {body : Database → Plan × Database}
    (silent : ∀ db, (body db).1.Silent) (db : Database) : (inTransaction body db).1.Silent := by
  unfold inTransaction
  dsimp only
  split
  · exact silent _
  · exact nofun

theorem disconnectPlan_silent (s : Server) (c : Slot) : (disconnectPlan s c).1.Silent :=
  inTransaction_silent (disconnectBody_silent s c) s.db

theorem refusePlan_silent (s : Server) (c : Slot) : (refusePlan s c).Silent :=
  .single fun _ => .of_type (transferResponse_type _ 0) (by decide) (by decide)

theorem grantPlan_silent (s : Server) (c : Slot) {p : Packet} (tId : TransferId)
    (request : p.type? = some .transferRequest) : (grantPlan s c p tId).Silent := by
  refine Plan.Silent.append (.single fun _ => ?_) (.toConnected fun _ _ _ => ?_)
  · exact .of_type (transferResponse_type p tId) (by decide) (by decide)
  · have kept : Packet.type? ((p.storeInt64 16 (s.client c).id).storeInt64 8 tId) =
        some .transferRequest := by
      rw [Packet.type?_storeInt64 _ _ (by decide), Packet.type?_storeInt64 _ _ (by decide), request]
    exact .of_type kept (by decide) (by decide)

theorem relayPlan_silent (s : Server) {p : Packet} (db : Database) (tId : TransferId)
    (silent : p.silent) : (relayPlan s p db tId).1.Silent :=
  .toConnected fun _ _ _ => silent

theorem completePlan_silent (s : Server) (c : Slot)
    (silent : (s.client c).decryptBuf.packet.silent) : (completePlan s c).1.Silent := by
  unfold completePlan
  dsimp only
  split
  · exact relayPlan_silent s _ _ silent
  · exact nofun

theorem replyPlan_silent (s : Server) (c : Slot)
    (reply : (s.client c).decryptBuf.packet.type? = some .transferReply) :
    (replyPlan s c).1.Silent := by
  have kept : Packet.type? ((s.client c).decryptBuf.packet.storeInt64 16 (s.client c).id) =
      some .transferReply := by rw [Packet.type?_storeInt64 _ _ (by decide), reply]
  unfold replyPlan
  dsimp only
  split
  · exact nofun
  · exact .toConnected fun _ _ _ => .of_type kept (by decide) (by decide)

/-- Only an introduction is answered with packets about users. -/
theorem analizePacket_silent (valid : s.QueuesValid)
    (other : (s.client c).decryptBuf.packet.type? ≠ some .clientIntro)
    (done : analizePacket s c = .ok t) :
    ∃ plan, s.Posts plan t ∧ plan.Silent ∧ SameClients s t := by
  have sends {plan : Plan} {db : Database} {r : Run Server} (sends : Sends s plan db r)
      (ended : r = .ok t) (silent : plan.Silent) :
      ∃ plan, s.Posts plan t ∧ plan.Silent ∧ SameClients s t := by
    have same := sends.same
    rw [ended] at same
    exact ⟨plan, sends.posts valid ended, silent, same⟩
  have idle (ended : Except.ok s = (.ok t : Run Server)) :
      ∃ plan, s.Posts plan t ∧ plan.Silent ∧ SameClients s t := by
    cases ended
    exact ⟨[], .of_queues (fun _ => rfl) rfl, nofun, .refl s⟩
  unfold analizePacket at done
  cases type : (s.client c).decryptBuf.packet.type? with
  | none =>
    rw [type] at done
    exact idle done
  | some kind =>
    have silent (new : kind ≠ .serverNewUsers) (gone : kind ≠ .serverDelUsers) :
        (s.client c).decryptBuf.packet.silent := .of_type type new gone
    rw [type] at done
    cases kind with
    | clientIntro => exact absurd type other
    | transferRequest =>
      by_cases begun : s.begun.1 = true
      · by_cases recorded : (s.recorded c).1 = true
        · have granted := packetTransfer_granted begun recorded
          have same := granted.same
          rw [show packetTransfer s c = .ok t from done] at same
          have posts := granted.posts (valid.of_queues fun _ => rfl) done
          exact ⟨_, posts.congr (fun _ => rfl) rfl (fun _ => rfl) rfl,
            grantPlan_silent s c _ type, same⟩
        · obtain ⟨r, refused, same⟩ := packetTransfer_refused begun (by simpa using recorded)
          rw [same] at done
          obtain ⟨u, ended, done⟩ := bind_ok done
          split at done
          · cases done
            exact sends refused ended (refusePlan_silent s c)
          · cases done
      · exact sends (packetTransfer_busy (by simpa using begun)) done (refusePlan_silent s c)
    | transferReply =>
      by_cases gone : s.creatorGone c
      · rw [show packetReply s c = _ from packetReply_gone gone] at done
        cases done
      · exact sends (packetReply_sends gone) done (replyPlan_silent s c type)
    | transferData =>
      exact sends (packetData_sends s c) done (relayPlan_silent s _ _ (silent (by decide) (by decide)))
    | transferComplete =>
      exact sends (packetComplete_sends s c) done
        (completePlan_silent s c (silent (by decide) (by decide)))
    | transferCancel =>
      exact sends (packetCancel_sends s c) done (inTransaction_silent (cancelBody_silent s c) s.db)
    | _ => exact idle done

end Posts

/-! Views and sessions -/

/-- For every client the packets enqueued to it since its slot was initialised. -/
abbrev Log := Slot → List Packet

/-- `i` is another client of the session of `r`. -/
def Server.mate (s : Server) (r i : Slot) : Bool :=
  i ≠ r ∧ (s.client i).state = .complete ∧ (s.client i).sessionId = (s.client r).sessionId

/-- The other clients of the session of `r`, by name and id. -/
def Server.mates (s : Server) (r : Slot) : List User :=
  ((List.finRange maxClients).filter fun i => s.mate r i).map fun i => (s.client i).user

/-- Clients in a session see it as it is, and no other client has heard of any user. -/
structure Views (s : Server) (log : Log) : Prop where
  told : ∀ r, (s.client r).state = .complete → (viewOf (log r)).Perm (s.mates r)
  blank : ∀ r, s.Live r → (s.client r).state ≠ .complete → viewOf (log r) = []
  named : ∀ r, (s.client r).state = .complete → (s.client r).name.length = pcNameMaxLen

/-- What other clients can tell of a client: its session, name and id once it is in one. -/
def Client.seen (c : Client) : Option (SessionId × User) :=
  if c.state = .complete then some (c.sessionId, c.user) else none

section Views

variable {s t : Server} {c r i : Slot} {log later : Log}

theorem Client.seen_eq {c d : Client} (same : d.seen = c.seen) :
    (d.state = .complete ↔ c.state = .complete) ∧
      (d.state = .complete → d.sessionId = c.sessionId ∧ d.user = c.user) := by
  unfold seen at same
  by_cases left : d.state = .complete <;> by_cases right : c.state = .complete <;>
    simp_all

theorem mates_congr (seen : ∀ i, (t.client i).seen = (s.client i).seen)
    (complete : (t.client r).state = .complete) : t.mates r = s.mates r := by
  have own := (Client.seen_eq (seen r)).2 complete
  have same : ((List.finRange maxClients).filter fun i => t.mate r i) =
      (List.finRange maxClients).filter fun i => s.mate r i := by
    refine List.filter_congr fun i _ => ?_
    obtain ⟨state, rest⟩ := Client.seen_eq (seen i)
    simp only [Server.mate, own.1]
    by_cases here : (t.client i).state = .complete
    · rw [(rest here).1]
      simp [here, state.mp here]
    · simp [here, mt state.mpr here]
  unfold Server.mates
  rw [same]
  refine List.map_congr_left fun i member => ?_
  have mate : s.mate r i = true := by simpa using member
  have here : (s.client i).state = .complete := (of_decide_eq_true mate).2.1
  obtain ⟨state, rest⟩ := Client.seen_eq (seen i)
  exact (rest (state.mpr here)).2

/-- Nothing is said about users and nobody joins or leaves. -/
theorem Views.congr (views : Views s log) (seen : ∀ i, (t.client i).seen = (s.client i).seen)
    (live : ∀ i, t.Live i → s.Live i)
    (same : ∀ i, t.Live i → viewOf (later i) = viewOf (log i)) : Views t later where
  told := fun r complete => by
    have was := (Client.seen_eq (seen r)).1.mp complete
    rw [same r (by simp [Server.Live, complete]), mates_congr seen complete]
    exact views.told r was
  blank := fun r alive apart => by
    rw [same r alive]
    exact views.blank r (live r alive) (mt (Client.seen_eq (seen r)).1.mpr apart)
  named := fun r complete => by
    obtain ⟨state, rest⟩ := Client.seen_eq (seen r)
    have name := congrArg User.name (rest complete).2
    have was := views.named r (state.mp complete)
    rwa [← show (t.client r).name = (s.client r).name from name] at was

end Views

/-! What an event adds to the views -/

/-- How many packets were enqueued to `i` between `s` and `t`. -/
def Server.arrivals (s t : Server) (i : Slot) : Nat :=
  ((t.sent.drop s.sent.length).map Sent.recipient).count i

/-- The packets enqueued to `i` by an event: the newest ones that wait for it. -/
def Server.arrived (s t : Server) (i : Slot) : List Packet :=
  (t.client i).msgQueue.contents.drop ((t.client i).msgQueue.count - s.arrivals t i)

/-- What was enqueued to each client since its slot was initialised, one event later. -/
def Server.logged (s t : Server) (log : Log) : Log := fun i =>
  if ¬ s.Live i ∧ t.Live i then [] else log i ++ s.arrived t i

section Arrived

variable {s t u : Server} {c i : Slot} {plan : Plan} {log later : Log}

theorem Server.Posts.arrived (posts : s.Posts plan t) (i : Slot) :
    s.arrived t i = (s.client i).msgQueue.made (plan.toward i) := by
  obtain ⟨more, grown, receivers⟩ := posts.sent
  have count : s.arrivals t i = ((s.client i).msgQueue.made (plan.toward i)).length := by
    rw [Server.arrivals, grown, List.drop_left, receivers, Queue.made_length, Plan.toward_length]
  rw [Server.arrived, ← Queue.contents_length, posts.contents i, count, List.length_append,
    Nat.add_sub_cancel, List.drop_left]

theorem arrived_none (sent : t.sent = s.sent) (i : Slot) : s.arrived t i = [] := by
  rw [Server.arrived, Server.arrivals, sent, List.drop_length]
  exact List.drop_eq_nil_of_le (by simp)

theorem logged_live (live : s.Live i) (log : Log) :
    s.logged t log i = log i ++ s.arrived t i := if_neg fun both => both.1 live

/-- Nothing is said about users, and who is in a session stays so. -/
structure Quiet (s t : Server) : Prop where
  seen : ∀ i, (t.client i).seen = (s.client i).seen
  live : ∀ i, t.Live i → s.Live i
  heard : ∀ i, t.Live i → ∀ log, viewOf (log ++ s.arrived t i) = viewOf log

theorem Quiet.views (quiet : Quiet s t) (views : Views s log) : Views t (s.logged t log) :=
  views.congr quiet.seen quiet.live fun i live => by
    rw [logged_live (quiet.live i live)]
    exact quiet.heard i live (log i)

theorem Quiet.of_sent (seen : ∀ i, (t.client i).seen = (s.client i).seen)
    (live : ∀ i, t.Live i → s.Live i) (sent : t.sent = s.sent) : Quiet s t where
  seen := seen
  live := live
  heard := fun i _ log => by rw [arrived_none sent, List.append_nil]

theorem Quiet.of_posts (seen : ∀ i, (t.client i).seen = (s.client i).seen)
    (live : ∀ i, t.Live i → s.Live i) (posts : s.Posts plan t) (silent : plan.Silent) :
    Quiet s t where
  seen := seen
  live := live
  heard := fun i _ log => by
    rw [posts.arrived]
    exact silent.viewOf log _ i

theorem SameClients.seen (same : SameClients s t) (i : Slot) :
    (t.client i).seen = (s.client i).seen :=
  same.field i Client.seen fun _ => rfl

/-- A change of one client that others do not notice. -/
theorem Quiet.modify (s : Server) (i : Slot) (f : Client → Client)
    (seen : (f (s.client i)).seen = (s.client i).seen)
    (live : (f (s.client i)).state ≠ .empty → (s.client i).state ≠ .empty) :
    Quiet s (s.modify i f) := by
  refine .of_sent (fun j => ?_) (fun j held => ?_) rfl
  · by_cases here : j = i
    · subst here
      rw [Server.client_modify_self, seen]
    · rw [Server.client_modify_of_ne _ _ here]
  · by_cases here : j = i
    · subst here
      rw [Server.Live, Server.client_modify_self] at held
      exact live held
    · rwa [Server.Live, Server.client_modify_of_ne _ _ here] at held

end Arrived

/-! Joining and leaving -/

section Membership

variable {s t : Server} {c i r : Slot} {log later : Log}

/-- Where ids are distinct, the clients told about `c` are those that have it in their session. -/
theorem mate_peer (distinct : s.DistinctIds) (complete : (s.client c).state = .complete)
    (other : (s.client r).state = .complete) : s.mate r c = s.peer c r := by
  have ids : c ≠ r ↔ (s.client r).id ≠ (s.client c).id :=
    not_congr ⟨fun same => by rw [same], fun same =>
      (distinct r c (by simp [Server.Live, other]) (by simp [Server.Live, complete]) same).symm⟩
  simp only [Server.mate, Server.peer, complete, other, ids, eq_comm]

theorem Server.mate_complete (mate : s.mate r i = true) : (s.client i).state = .complete :=
  (of_decide_eq_true mate).2.1

theorem Client.seen_user {c d : Client} (same : d.seen = c.seen) (complete : c.state = .complete) :
    d.user = c.user :=
  ((seen_eq same).2 ((seen_eq same).1.mpr complete)).2

/-- Clients that others see as before are in a session with the same clients as before. -/
theorem mate_congr (own : (t.client r).seen = (s.client r).seen)
    (seen : (t.client i).seen = (s.client i).seen) (complete : (t.client r).state = .complete) :
    t.mate r i = s.mate r i := by
  have session := ((Client.seen_eq own).2 complete).1
  obtain ⟨state, rest⟩ := Client.seen_eq seen
  simp only [Server.mate, session]
  by_cases here : (t.client i).state = .complete
  · rw [(rest here).1]
    simp [here, state.mp here]
  · simp [here, mt state.mpr here]

/-- `c` leaves and its peers strike it off. -/
theorem Views.leave (views : Views s log) (distinct : s.DistinctIds)
    (complete : (s.client c).state = .complete) (gone : ¬ t.Live c)
    (seen : ∀ i, i ≠ c → (t.client i).seen = (s.client i).seen)
    (live : ∀ i, t.Live i → s.Live i)
    (heard : ∀ i, t.Live i → viewOf (later i) = if s.peer c i then
      (viewOf (log i)).eraseP (·.id = (s.client c).id) else viewOf (log i)) : Views t later where
  told := fun r here => by
    have alive : t.Live r := by simp [Server.Live, here]
    have other : r ≠ c := fun same => gone (same ▸ alive)
    have was := (Client.seen_eq (seen r other)).1.mp here
    have told := views.told r was
    have fewer : t.mates r = (((List.finRange maxClients).filter fun i => s.mate r i).filter
        fun i => decide (i ≠ c)).map fun i => (s.client i).user := by
      have same : ((List.finRange maxClients).filter fun i => t.mate r i) =
          ((List.finRange maxClients).filter fun i => s.mate r i).filter fun i => decide (i ≠ c) := by
        rw [List.filter_filter]
        refine List.filter_congr fun i _ => ?_
        by_cases left : i = c
        · subst left
          have out : ¬ t.mate r i = true := fun mate => gone (by
            simp [Server.Live, Server.mate_complete mate])
          simpa using out
        · simp [left, mate_congr (seen r other) (seen i left) here]
      rw [Server.mates, same]
      refine List.map_congr_left fun i member => ?_
      obtain ⟨mate, stays⟩ := List.mem_filter.mp member
      exact Client.seen_user (seen i (of_decide_eq_true stays))
        (Server.mate_complete (List.mem_filter.mp mate).2)
    rw [heard r alive, fewer, ← mate_peer distinct complete was]
    by_cases mate : s.mate r c = true
    · rw [if_pos mate]
      have once : ((List.finRange maxClients).filter fun i => s.mate r i).Nodup :=
        (List.nodup_finRange _).filter _
      have only : ∀ i ∈ (List.finRange maxClients).filter fun i => s.mate r i,
          decide ((s.client i).user.id = (s.client c).id) = true ↔ i = c := by
        intro i member
        have there := Server.mate_complete (List.mem_filter.mp member).2
        rw [decide_eq_true_iff]
        exact ⟨distinct i c (by simp [Server.Live, there]) (by simp [Server.Live, complete]),
          fun same => by rw [same]; rfl⟩
      rw [← Lists.eraseP_map (fun i => (s.client i).user)
        (fun user => decide (user.id = (s.client c).id)) once only]
      refine (List.Perm.eraseP _ (List.pairwise_map.mpr ?_) told.symm).symm
      exact once.imp_of_mem fun first second ne one two =>
        ne (((only _ first).mp one).trans ((only _ second).mp two).symm)
    · rw [if_neg mate, List.filter_eq_self.mpr fun i member => ?_]
      · exact told
      · refine decide_eq_true fun same => mate ?_
        exact same ▸ (List.mem_filter.mp member).2
  blank := fun r alive apart => by
    have other : r ≠ c := fun same => gone (same ▸ alive)
    have was := mt (Client.seen_eq (seen r other)).1.mpr apart
    have out : ¬ s.peer c r = true := fun peer => was (of_decide_eq_true peer).2.1
    rw [heard r alive, if_neg out]
    exact views.blank r (live r alive) was
  named := fun r here => by
    have other : r ≠ c := fun same => gone (by rw [← same]; simp [Server.Live, here])
    have was := (Client.seen_eq (seen r other)).1.mp here
    have name := congrArg User.name (Client.seen_user (seen r other) was)
    rw [show (t.client r).name = (s.client r).name from name]
    exact views.named r was

/-- `c` joins: it gets to know its session, and its peers take it up. -/
theorem Views.join (views : Views s log) (distinct : t.DistinctIds)
    (new : (s.client c).state ≠ .complete) (complete : (t.client c).state = .complete)
    (named : (t.client c).name.length = pcNameMaxLen)
    (seen : ∀ i, i ≠ c → (t.client i).seen = (s.client i).seen)
    (live : ∀ i, t.Live i → s.Live i) (batch : viewOf (later c) = t.mates c)
    (heard : ∀ i, i ≠ c → t.Live i → viewOf (later i) = if t.peer c i then
      viewOf (log i) ++ [(t.client c).user] else viewOf (log i)) : Views t later where
  told := fun r here => by
    by_cases self : r = c
    · subst self
      rw [batch]
    · have alive : t.Live r := by simp [Server.Live, here]
      have was := (Client.seen_eq (seen r self)).1.mp here
      have told := views.told r was
      have out : s.mate r c = false := by
        rw [Bool.eq_false_iff]
        exact fun mate => new (Server.mate_complete mate)
      have kept {i : Slot} (mate : s.mate r i = true) : (t.client i).user = (s.client i).user := by
        refine Client.seen_user (seen i fun same => ?_) (Server.mate_complete mate)
        rw [same, out] at mate
        cases mate
      have before : s.mates r = ((List.finRange maxClients).filter fun i => s.mate r i).map
          fun i => (t.client i).user :=
        List.map_congr_left fun i member => (kept (List.mem_filter.mp member).2).symm
      rw [heard r self alive, ← mate_peer distinct complete here]
      by_cases mate : t.mate r c = true
      · rw [if_pos mate]
        have more : ((List.finRange maxClients).filter fun i => t.mate r i) =
            (List.finRange maxClients).filter fun i => s.mate r i || decide (i = c) := by
          refine List.filter_congr fun i _ => ?_
          by_cases here' : i = c
          · subst here'
            simp [mate]
          · simp [here', mate_congr (seen r self) (seen i here') here]
        have grown := Lists.filter_insert (List.nodup_finRange maxClients) (List.mem_finRange c) out
        rw [Server.mates, more]
        refine List.Perm.trans ?_ (grown.map _).symm
        rw [List.map_append, List.map_singleton, ← before]
        exact told.append_right _
      · rw [if_neg mate, Server.mates]
        have same : ((List.finRange maxClients).filter fun i => t.mate r i) =
            (List.finRange maxClients).filter fun i => s.mate r i := by
          refine List.filter_congr fun i _ => ?_
          by_cases here' : i = c
          · subst here'
            rw [out]
            simpa using mate
          · exact mate_congr (seen r self) (seen i here') here
        rw [same, ← before]
        exact told
  blank := fun r alive apart => by
    have self : r ≠ c := fun same => apart (same ▸ complete)
    have out : ¬ t.peer c r = true := fun peer => apart (of_decide_eq_true peer).2.1
    rw [heard r self alive, if_neg out]
    exact views.blank r (live r alive) (mt (Client.seen_eq (seen r self)).1.mpr apart)
  named := fun r here => by
    by_cases self : r = c
    · exact self ▸ named
    · have was := (Client.seen_eq (seen r self)).1.mp here
      have name := congrArg User.name (Client.seen_user (seen r self) was)
      rw [show (t.client r).name = (s.client r).name from name]
      exact views.named r was

end Membership

end Quickshare
