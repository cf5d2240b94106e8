import Quickshare.Server.Granting
import Quickshare.Server.StaleInput
import Quickshare.Server.StaleOutput

/-! Two servers whose free slots differ, event by event. As long as nobody is
told of a cancelled transfer and nobody joins others in a session, both transmit
the same bytes. -/

namespace Quickshare

open Runs

/-- The same server, with the same bytes waiting in every queue. -/
structure SameOutput (s t : Server) : Prop where
  client : ∀ i, (s.client i).SameOutput (t.client i)
  nCli : t.clients.nCli = s.clients.nCli
  db : t.db = s.db
  epoll : t.epoll = s.epoll
  openFds : t.openFds = s.openFds

/-- The same assertion fails, with the same clients but for their queues. -/
structure SameFailure (left right : Fault × Server) : Prop where
  fault : right.1 = left.1
  clients : SameClients left.2 right.2

section Relation

variable {s t u v : Server} {c d : Client} {i : Slot} {fd : Int}

theorem SameOutput.clients (same : SameOutput s t) : SameClients s t := fun i => (same.client i).bare

theorem SameOutput.queues (same : SameOutput s t) : SameQueues Queue.SameWaiting s t :=
  fun i => (same.client i).queue

theorem SameOutput.failure (same : SameOutput s t) (fault : Fault) :
    SameFailure (fault, s) (fault, t) := ⟨rfl, same.clients⟩

theorem SameOutput.modify {f g : Client → Client} (same : SameOutput s t)
    (client : (f (s.client i)).SameOutput (g (t.client i))) :
    SameOutput (s.modify i f) (t.modify i g) where
  client := fun j => by
    by_cases here : j = i
    · subst here
      rw [Server.client_modify_self, Server.client_modify_self]
      exact client
    · rw [Server.client_modify_of_ne _ _ here, Server.client_modify_of_ne _ _ here]
      exact same.client j
  nCli := same.nCli
  db := same.db
  epoll := same.epoll
  openFds := same.openFds

/-- Changes that look at no queue. -/
theorem SameOutput.modify_blind {f : Client → Client} (same : SameOutput s t) (i : Slot)
    (blind : ∀ c q, f (Client.withQueue c q) = Client.withQueue (f c) q)
    (queue : ∀ c, (f c).msgQueue = c.msgQueue) : SameOutput (s.modify i f) (t.modify i f) := by
  refine same.modify ?_
  rw [(same.client i).eq, blind]
  refine (f (s.client i)).withQueue_same ?_
  rw [queue]
  exact (same.client i).queue

theorem SameOutput.setDb (same : SameOutput s t) (db : Database) :
    SameOutput { s with db } { t with db } :=
  ⟨same.client, same.nCli, rfl, same.epoll, same.openFds⟩

theorem Sends.nCli {plan : Plan} {db : Database} (sends : Sends s plan db (.ok t)) :
    t.clients.nCli = s.clients.nCli := by
  obtain ⟨u, sent, rfl⟩ := sends.ok t rfl
  have kept := Server.sendAll_kept (fun s => s.clients.nCli) (fun _ _ _ => rfl) sent
  exact kept

/-- Whole packets sent on both sides keep the servers alike. -/
theorem SameOutput.sends {plan : Plan} {db : Database} {r r' : Run Server} (same : SameOutput s t)
    (whole : plan.Whole) (left : Sends s plan db r) (right : Sends t plan db r') :
    Agree SameOutput SameFailure r r' := by
  have both := left.agree Queue.SameWaiting.rooms same.queues whole.alike right
  have first := left.same
  have second := right.same
  cases r with
  | ok u =>
    cases r' with
    | ok v =>
      have sent : SentAlike Queue.SameWaiting s t db db u v := both
      have kept : SameDescriptors s u := left.descriptors
      have kept' : SameDescriptors t v := right.descriptors
      refine ⟨fun i => ⟨?_, sent.queues i⟩, ?_, sent.secondDb.trans sent.firstDb.symm, ?_, ?_⟩
      · exact (second i).trans ((same.clients i).trans (first i).symm)
      · rw [right.nCli, left.nCli, same.nCli]
      · rw [kept'.epoll, kept.epoll, same.epoll]
      · rw [kept'.openFds, kept.openFds, same.openFds]
    | error failed' => cases both
  | error failed =>
    cases r' with
    | ok v => cases both
    | error failed' => exact ⟨both, first.symm.trans (same.clients.trans second)⟩

end Relation

/-! Packets -/

section Packets

variable {s t : Server} {c : Slot} {fd : Int}

/-- The introduction of `c` is refused or finds nobody in the session. -/
def Server.joinsAlone (s : Server) (c : Slot) : Prop :=
  (s.client c).state = .complete ∨ (s.client c).decryptBuf.packet.introSession > 1 ∨
    (s.introduced c).1 = 0 ∨ (List.finRange maxClients).filter ((s.joined c).peer c) = []

/-- The packet of `c` has no cancel sent on and no newcomer told of others. -/
def Server.writesWhole (s : Server) (c : Slot) : Prop :=
  match (s.client c).decryptBuf.packet.type? with
  | some .clientIntro => s.joinsAlone c
  | some .transferCancel => (cancelPlan s c).1 = []
  | _ => True

theorem Plan.Whole.refuse (s : Server) (c : Slot) : (refusePlan s c).Whole := .single c _

theorem Plan.Whole.grant (s : Server) (c : Slot) (p : Packet) (tId : TransferId) :
    (grantPlan s c p tId).Whole :=
  (Plan.Whole.single c _).append (.copies _ id _)

theorem Plan.Whole.reply (s : Server) (c : Slot) : (replyPlan s c).1.Whole := by
  simp only [replyPlan]
  split
  · exact .nil
  · exact .copies _ id _

theorem Plan.Whole.complete (s : Server) (c : Slot) : (completePlan s c).1.Whole := by
  simp only [completePlan]
  split
  · exact .copies _ id _
  · exact .nil

theorem SameOutput.recorded (same : SameOutput s t) (c : Slot) : t.recorded c = s.recorded c :=
  recorded_same same.clients same.db c

theorem packetTransfer_output (same : SameOutput s t) (c : Slot) :
    Agree SameOutput SameFailure (packetTransfer s c) (packetTransfer t c) := by
  have begun : t.begun = s.begun := by rw [Server.begun, same.db, Server.begun]
  have packet : (t.client c).decryptBuf.packet = (s.client c).decryptBuf.packet :=
    congrArg Buffer.packet (same.clients.decryptBuf c)
  by_cases started : s.begun.1 = true
  · by_cases granted : (s.recorded c).1 = true
    · have left := packetTransfer_granted started granted
      have right := packetTransfer_granted (s := t) (c := c) (by rw [begun, started])
        (by rw [same.recorded, granted])
      rw [same.recorded, packet, grantPlan_same same.clients] at right
      have logged : SameOutput { s with committed := s.committed ++ [(s.recorded c).2.1] }
          { t with committed := t.committed ++ [(s.recorded c).2.1] } :=
        ⟨same.client, same.nCli, same.db, same.epoll, same.openFds⟩
      exact logged.sends (.grant s c _ _) left right
    · obtain ⟨r, sends, equal⟩ := packetTransfer_refused started (by simpa using granted)
      obtain ⟨r', sends', equal'⟩ := packetTransfer_refused (s := t) (c := c)
        (by rw [begun, started]) (by rw [same.recorded]; simpa using granted)
      rw [same.recorded, refusePlan_same same.clients] at sends'
      rw [equal, equal', packet]
      refine (same.sends (.refuse s c) sends sends').bind fun u v alike => ?_
      generalize (debugTransfer (s.client c).decryptBuf.packet).inside = inside
      cases inside
      · exact alike.failure _
      · exact alike
  · have left := packetTransfer_busy (s := s) (c := c) (by simpa using started)
    have right := packetTransfer_busy (s := t) (c := c) (by rw [begun]; simpa using started)
    rw [begun, refusePlan_same same.clients] at right
    exact same.sends (.refuse s c) left right

theorem packetReply_output (same : SameOutput s t) (c : Slot) :
    Agree SameOutput SameFailure (packetReply s c) (packetReply t c) := by
  by_cases gone : s.creatorGone c
  · rw [packetReply_gone gone, packetReply_gone ((creatorGone_same same.clients same.db).mpr gone),
      replyCreator_same same.clients same.db]
    exact (same.setDb (replyCreator s c).2).failure .creator
  · have left := packetReply_sends gone
    have right := packetReply_sends (mt (creatorGone_same same.clients same.db).mp gone)
    rw [replyPlan_same same.clients same.db] at right
    exact same.sends (.reply s c) left right

theorem packetIntro_output (same : SameOutput s t) (alone : s.joinsAlone c) :
    Agree SameOutput SameFailure (packetIntro s c) (packetIntro t c) := by
  have packet : (t.client c).decryptBuf.packet = (s.client c).decryptBuf.packet :=
    congrArg Buffer.packet (same.clients.decryptBuf c)
  have answered {s t : Server} (same : SameOutput s t) (type : PacketType) :
      Agree SameOutput SameFailure (serverResponse s c type) (serverResponse t c type) := by
    have right := serverResponse_sends t c type
    rw [same.db] at right
    exact same.sends (.response c type) (serverResponse_sends s c type) right
  rw [packetIntro_eq, packetIntro_eq, packet, same.clients.state, introduced_same same.clients same.db]
  by_cases abnormal : (s.client c).state = .complete ∨
      (s.client c).decryptBuf.packet.introSession > 1
  · rw [if_pos abnormal, if_pos abnormal]
    exact answered same .serverDeny
  · rw [if_neg abnormal, if_neg abnormal]
    have terminated : SameOutput (s.terminated c) (t.terminated c) := by
      rw [Server.terminated, Server.terminated, packet]
      exact same.modify_blind c (fun _ _ => rfl) fun _ => rfl
    have opened := terminated.setDb (s.introduced c).2
    have joins : (s.introduced c).1 = 0 ∨
        (List.finRange maxClients).filter ((s.joined c).peer c) = [] := by
      rcases alone with complete | named | rest
      · exact absurd (.inl complete) abnormal
      · exact absurd (.inr named) abnormal
      · exact rest
    unfold Server.joined at joins
    generalize s.introduced c = session at joins opened ⊢
    generalize (terminateIntro (s.client c).decryptBuf.packet).introName = name at joins ⊢
    dsimp only
    by_cases refused : session.1 = 0
    · rw [if_pos refused, if_pos refused]
      exact answered opened .serverDeny
    · rw [if_neg refused, if_neg refused]
      have alone := joins.resolve_left refused
      have accepted : Agree (fun u v => SameOutput u v ∧ SameClients (s.terminated c) u) SameFailure
          (serverResponse { s.terminated c with db := session.2 } c .serverOk)
          (serverResponse { t.terminated c with db := session.2 } c .serverOk) := by
        refine (answered opened .serverOk).mono fun u v done _ alike => ⟨alike, ?_⟩
        have sends := serverResponse_sends { s.terminated c with db := session.2 } c .serverOk
        rw [done] at sends
        exact sends.same_ok
      refine accepted.bind fun u v both => ?_
      obtain ⟨alike, kept⟩ := both
      have joined : SameOutput (u.completed c session.1 name) (v.completed c session.1 name) :=
        alike.modify_blind c (fun _ _ => rfl) fun _ => rfl
      have peer := funext ((completed_same kept c session.1 name).peer c)
      have left := sendSessionUsers_sends (u.completed c session.1 name) c
      have right := sendSessionUsers_sends (v.completed c session.1 name) c
      have peer' := funext (joined.clients.peer c)
      rw [peer', joined.db] at right
      rw [peer, alone] at left right
      exact joined.sends .nil left right

/-- A packet that is written whole on one side is written alike on the other. -/
theorem analizePacket_output (same : SameOutput s t) (whole : s.writesWhole c) :
    Agree SameOutput SameFailure (analizePacket s c) (analizePacket t c) := by
  have packet : (t.client c).decryptBuf.packet = (s.client c).decryptBuf.packet :=
    congrArg Buffer.packet (same.clients.decryptBuf c)
  unfold Server.writesWhole at whole
  unfold analizePacket
  rw [packet]
  cases type : (s.client c).decryptBuf.packet.type? with
  | none => exact same
  | some kind =>
    rw [type] at whole
    cases kind with
    | clientIntro => exact packetIntro_output same whole
    | transferRequest => exact packetTransfer_output same c
    | transferReply => exact packetReply_output same c
    | transferData =>
      have right := packetData_sends t c
      rw [dataPlan_same same.clients same.db] at right
      exact same.sends (.copies _ id _) (packetData_sends s c) right
    | transferComplete =>
      have right := packetComplete_sends t c
      rw [completePlan_same same.clients same.db] at right
      exact same.sends (.complete s c) (packetComplete_sends s c) right
    | transferCancel =>
      have left := packetCancel_sends s c
      have right := packetCancel_sends t c
      rw [cancelPlan_same same.clients same.db] at right
      have quiet : (cancelPlan s c).1 = [] := whole
      rw [quiet] at left right
      exact same.sends .nil left right
    | _ => exact same

end Packets

/-! Disconnects -/

section Disconnects

variable {s t : Server} {c i : Slot} {fd : Int} {deleted : Bool}

/-- If `close_client` takes a client out of its session here, nobody is told of
the transfers it leaves. -/
def Server.leavesQuietly (s : Server) (fd : Int) (deleted : Bool) : Prop :=
  deleted = true → fd ∈ s.epoll → ∀ c, clientFind s.clients fd = some c →
    (s.client c).state = .complete → (disconnectPlan s c).1 = []

theorem Plan.Whole.goodbye (s : Server) (c : Slot) : (goodbyePlan s c).Whole := by
  intro entry member old old'
  obtain ⟨i, -, found⟩ := List.mem_flatMap.mp member
  split at found
  · rw [List.mem_singleton.mp found]
  · cases found

theorem SameOutput.closed (same : SameOutput s t) (fd : Int) :
    SameOutput (s.closed fd) (t.closed fd) := by
  have found := same.clients.find fd
  have openFds : t.openFds.erase fd = s.openFds.erase fd := by rw [same.openFds]
  unfold Server.closed clientClose
  rw [found]
  cases clientFind s.clients fd with
  | none => exact ⟨same.client, same.nCli, same.db, same.epoll, openFds⟩
  | some c =>
    have freed : SameOutput (s.modify c Client.freed) (t.modify c Client.freed) :=
      same.modify_blind c (fun _ _ => rfl) fun _ => rfl
    refine ⟨freed.client, ?_, same.db, same.epoll, openFds⟩
    simp only [same.nCli]

theorem leaveSession_output (same : SameOutput s t)
    (quiet : (s.client c).state = .complete → (disconnectPlan s c).1 = []) :
    Agree SameOutput SameFailure (leaveSession s c) (leaveSession t c) := by
  have left := leaveSession_sends s c
  have right := leaveSession_sends t c
  rw [leavingPlan_same same.clients same.db] at right
  refine same.sends ?_ left right
  unfold leavingPlan
  split
  · rename_i complete
    simp only [quiet complete, List.nil_append]
    exact .goodbye s c
  · exact .nil

theorem closeClient_output (same : SameOutput s t) (quiet : s.leavesQuietly fd deleted) :
    Agree SameOutput SameFailure (closeClient s fd deleted) (closeClient t fd deleted) := by
  rw [closeClient_eq, closeClient_eq, same.epoll, same.clients.find]
  by_cases known : deleted = true ∧ fd ∈ s.epoll
  · rw [if_pos known, if_pos known]
    have fewer : SameOutput { s with epoll := s.epoll.erase fd } { t with epoll := s.epoll.erase fd } :=
      ⟨same.client, same.nCli, same.db, rfl, same.openFds⟩
    dsimp only
    cases found : clientFind s.clients fd with
    | none => exact fewer
    | some c =>
      have left : Agree SameOutput SameFailure (leaveSession { s with epoll := s.epoll.erase fd } c)
          (leaveSession { t with epoll := s.epoll.erase fd } c) :=
        leaveSession_output fewer (quiet known.1 known.2 c found)
      exact left.bind fun u v alike => alike.closed fd
  · rw [if_neg known, if_neg known]
    exact same

theorem SameSeats.findById (same : SameSeats s t) (id : ClientId) :
    clientFindById t.clients id = clientFindById s.clients id := by
  apply ClientList.search_congr
  intro i
  have state : (t.clients.list i).state = (s.clients.list i).state := same.state i
  have cId : (t.clients.list i).id = (s.clients.list i).id := same.id i
  simp only [state, cId]

/-- Whom `cancel_transaction` tells depends on who sits where and on the tables. -/
theorem SameSeats.disconnectPlan (same : SameSeats s t) (c : Slot) :
    Quickshare.disconnectPlan t c = Quickshare.disconnectPlan s c := by
  have connected {Item : Type} (key : Item → ClientId) (packet : Item → Packet → Packet)
      (items : List Item) : toConnected t key packet items = toConnected s key packet items := by
    simp only [toConnected, same.findById]
  have transfers : cancelTransferPlan t c = cancelTransferPlan s c := by
    funext db tId
    simp only [cancelTransferPlan, connected, same.id]
  have body : disconnectBody t c = disconnectBody s c := by
    funext db
    simp only [disconnectBody, transfers, leavePlan, connected, same.id]
  rw [Quickshare.disconnectPlan, body, same.db, Quickshare.disconnectPlan]

theorem SameSeats.leavesQuietly (same : SameSeats s t) (quiet : s.leavesQuietly fd deleted) :
    t.leavesQuietly fd deleted := by
  intro works listed c found complete
  rw [same.epoll] at listed
  rw [same.find] at found
  rw [same.state] at complete
  rw [same.disconnectPlan]
  exact quiet works listed c found complete

end Disconnects

/-! Writing -/

section Writing

variable {s t : Server} {i : Slot} {fd : Int}

/-- One turn takes what it writes from the client alone. -/
theorem turn_output {c d : Client} (same : c.SameOutput d) (state : WriteResult)
    (writes : List SysWrite) :
    SameResult (if c.secure.encryptedBuf.len > 0 then writeBytes writes c else (state, c, writes))
      (if d.secure.encryptedBuf.len > 0 then writeBytes writes d else (state, d, writes)) := by
  rw [same.eq]
  have secure : (c.withQueue d.msgQueue).secure = c.secure := rfl
  rw [secure]
  split
  · rw [writeBytes_queue]
    refine ⟨rfl, (writeBytes writes c).2.1.withQueue_same ?_, rfl⟩
    have kept := congrArg Client.msgQueue (writeBytes_same writes c).rest
    have queue : (writeBytes writes c).2.1.msgQueue = c.msgQueue := kept
    rw [queue]
    exact same.queue
  · exact ⟨rfl, c.withQueue_same same.queue, rfl⟩

theorem SameOutput.set {c d : Client} (same : SameOutput s t) (client : c.SameOutput d) :
    SameOutput (s.modify i fun _ => c) (t.modify i fun _ => d) :=
  same.modify client

theorem writeClose_output (same : SameOutput s t) {deleted : Bool}
    (quiet : s.leavesQuietly fd deleted) :
    Agree SameOutput SameFailure (writeClose s i fd deleted) (writeClose t i fd deleted) := by
  have acted : SameOutput (s.modify i fun c => c.acted .close) (t.modify i fun c => c.acted .close) :=
    same.modify_blind i (fun _ _ => rfl) fun _ => rfl
  have seats : SameSeats s (s.modify i fun c => c.acted .close) :=
    Client.Written.seats (i := i) (d := (s.client i).acted .close) ⟨rfl⟩
  exact closeClient_output acted (seats.leavesQuietly quiet)

/-- After a close in `write_data` the descriptor cannot be deleted again. -/
theorem leavesQuietly_of_unlisted {deleted : Bool} (unlisted : ¬ (deleted = true ∧ fd ∈ s.epoll)) :
    s.leavesQuietly fd deleted :=
  fun works listed => absurd ⟨works, listed⟩ unlisted

/-- One packet is taken off and sealed alike; a failure closes the client, which
must tell nobody of a transfer. -/
theorem encryptNext_output (same : SameOutput s t) (env : WriteEnv)
    (quiet : ∀ d ssl, sealNext (s.client i) env.ssl = .ok (false, d, ssl) →
      s.leavesQuietly fd env.deleted) :
    Agree (fun x y => y.1 = x.1 ∧ SameOutput x.2 y.2) SameFailure (encryptNext s i fd env)
      (encryptNext t i fd env) := by
  unfold encryptNext
  rcases (same.client i).queue.dequeue with ⟨none, none'⟩ | ⟨p, r, p', r', taken, taken', wire, rest⟩
  · rw [none, none']
    exact ⟨rfl, same⟩
  · rw [taken, taken']
    simp only [sealNext, taken] at quiet
    have next : Client.SameOutput { (s.client i).acted .dequeue with msgQueue := r }
        { (t.client i).acted .dequeue with msgQueue := r' } := by
      rw [(same.client i).eq]
      exact ⟨rfl, rest⟩
    have popped : SameOutput (s.modify i fun c => { c.acted .dequeue with msgQueue := r })
        (t.modify i fun c => { c.acted .dequeue with msgQueue := r' }) := same.modify next
    dsimp only
    rw [Server.client_modify_self, Server.client_modify_self, next.eq, encrypt_queue wire]
    have sealed := encrypt_tls p { (s.client i).acted .dequeue with msgQueue := r } env.ssl
    cases encrypted : encrypt p { (s.client i).acted .dequeue with msgQueue := r } env.ssl with
    | error fault => exact popped.failure fault
    | ok result =>
      obtain ⟨done, e, ssl⟩ := result
      rw [encrypted] at quiet sealed
      have kept := congrArg Client.msgQueue sealed.rest
      have queue : e.msgQueue = r := kept
      have client : e.SameOutput (e.withQueue r') := by
        refine e.withQueue_same ?_
        rw [queue]
        exact rest
      have both := popped.set (i := i) client
      simp only [Except.map, onQueue, Server.lift, bind, Except.bind]
      cases done with
      | true => exact ⟨rfl, both⟩
      | false =>
        have seats : SameSeats s ((s.modify i fun c =>
            { c.acted .dequeue with msgQueue := r }).modify i fun _ => e) := by
          rw [s.modify_modify]
          have written : (s.client i).Written e := by
            have taken : (s.client i).Written { (s.client i).acted .dequeue with msgQueue := r } := ⟨rfl⟩
            exact taken.trans (Client.SameButSecure.written sealed)
          exact written.seats
        have closed := writeClose_output (i := i) both (seats.leavesQuietly (quiet e ssl rfl))
        exact closed.bind fun u v alike => ⟨rfl, alike⟩

/-- The loop of `write_data` writes alike where closing its client tells nobody
of a transfer, if it gets so far. -/
theorem writeLoop_output (fuel : Nat) (same : SameOutput s t) (nodup : s.epoll.Nodup)
    (state : WriteResult) (env : WriteEnv)
    (quiet : (writeClient fuel (s.client i) state env).map Prod.fst = .ok false →
      s.leavesQuietly fd env.deleted) :
    Agree SameOutput SameFailure (writeLoop fuel s i fd state env)
      (writeLoop fuel t i fd state env) := by
  induction fuel generalizing s t state env with
  | zero => exact same
  | succ fuel ih =>
    simp only [writeLoop]
    simp only [writeClient] at quiet
    have turned := turn_output (same.client i) state env.writes
    have written : (s.client i).Written (if (s.client i).secure.encryptedBuf.len > 0
        then writeBytes env.writes (s.client i) else (state, s.client i, env.writes)).2.1 := by
      split
      · exact (writeBytes_same ..).written
      · exact .refl _
    generalize (if (s.client i).secure.encryptedBuf.len > 0 then writeBytes env.writes (s.client i)
      else (state, s.client i, env.writes)) = out at turned written quiet ⊢
    generalize (if (t.client i).secure.encryptedBuf.len > 0 then writeBytes env.writes (t.client i)
      else (state, t.client i, env.writes)) = out' at turned ⊢
    obtain ⟨state, c, writes⟩ := out
    obtain ⟨state', d, writes'⟩ := out'
    obtain ⟨same_state, client, same_writes⟩ := turned
    obtain rfl : state' = state := same_state
    obtain rfl : writes' = writes := same_writes
    have next := same.set (i := i) client
    have seats : SameSeats s (s.modify i fun _ => c) := written.seats
    dsimp only at quiet ⊢
    by_cases failed : state' = .error
    · rw [if_pos failed] at quiet ⊢
      rw [if_pos failed]
      exact writeClose_output next (seats.leavesQuietly (quiet rfl))
    · rw [if_neg failed] at quiet ⊢
      rw [if_neg failed]
      have here : (s.modify i fun _ => c).client i = c := s.client_modify_self i _
      have quietly : ∀ e ssl, sealNext ((s.modify i fun _ => c).client i) env.ssl =
          .ok (false, e, ssl) → (s.modify i fun _ => c).leavesQuietly fd env.deleted := by
        intro e ssl sealed
        rw [here] at sealed
        exact seats.leavesQuietly (quiet (by rw [sealed]; rfl))
      have both := encryptNext_output next { env with writes := writes' } quietly
      have listed : (s.modify i fun _ => c).epoll.Nodup := nodup
      have ended := encryptNext_eq (s.modify i fun _ => c) i fd { env with writes := writes' }
      rw [here] at ended
      generalize encryptNext (s.modify i fun _ => c) i fd { env with writes := writes' } = r at both ended
      generalize encryptNext (t.modify i fun _ => d) i fd { env with writes := writes' } = r' at both
      cases r with
      | error failed' =>
        cases r' with
        | error other => exact both
        | ok y => cases both
      | ok x =>
        cases r' with
        | error other => cases both
        | ok y =>
          obtain ⟨envs, alike⟩ := both
          have buffers : (y.2.client i).secure = (x.2.client i).secure := alike.clients.secure i
          simp only [bind, Except.bind, envs, buffers]
          by_cases more : state' ≠ .block ∧ (x.2.client i).secure.encryptedBuf.len > 0
          · rw [if_pos more, if_pos more]
            rcases ended with ⟨fault, -, stopped⟩ | ⟨done, e, ssl, sealed, ended⟩
            · cases stopped
            · rw [sealed] at quiet
              cases done with
              | true =>
                rw [if_pos rfl] at ended
                cases ended
                have there : ((s.modify i fun _ => c).modify i fun _ => e).client i = e :=
                  Server.client_modify_self _ i _
                rw [there] at more
                simp only [bind, Except.bind, if_true, if_pos more] at quiet
                refine ih alike listed state' _ fun fails => ?_
                rw [there] at fails
                have sealing := sealNext_written c env.ssl
                rw [sealed] at sealing
                have kept : SameSeats s ((s.modify i fun _ => c).modify i fun _ => e) := by
                  rw [s.modify_modify]
                  exact (written.trans sealing).seats
                exact kept.leavesQuietly (quiet fails)
              | false =>
                rw [if_neg Bool.false_ne_true] at ended
                have gone : Ends (fun u : Server => ¬ (env.deleted = true ∧ fd ∈ u.epoll) ∧
                    u.epoll.Nodup) (fun _ => True)
                    (writeClose ((s.modify i fun _ => c).modify i fun _ => e) i fd env.deleted) := by
                  unfold writeClose
                  refine ((closeClient_unlisted ?_ fd env.deleted).and
                    (closeClient_nodup ?_ fd env.deleted)).mono (fun _ _ ends => ends)
                    fun _ _ => trivial
                  · exact nodup
                  · exact nodup
                cases closed : writeClose ((s.modify i fun _ => c).modify i fun _ => e) i fd
                    env.deleted with
                | error failed =>
                  rw [closed] at ended
                  cases ended
                | ok u =>
                  rw [closed] at ended gone
                  cases ended
                  exact ih alike gone.2 state' _ fun _ => leavesQuietly_of_unlisted gone.1
          · rw [if_neg more, if_neg more]
            exact alike

end Writing

/-! Events -/

section Events

variable {s t : Server} {c i : Slot} {fd : Int}

/-- Where this event sends only packets that are written whole. -/
def sendsWhole (s : Server) : Event → Prop
  | .recv fd chunk => ∀ c t, s.delivers (.recv fd chunk) = some (c, t) → t.writesWhole c
  | .write fd env => ∀ i, clientFind s.clients fd = some i → writeFails (s.client i) env →
    s.leavesQuietly fd env.deleted
  | .close fd deleted => s.leavesQuietly fd deleted
  | _ => True

theorem clientInit_output (same : SameOutput s t) (now : ClientId) (ssl : Ssl) :
    (clientInit s.clients now ssl = none ∧ clientInit t.clients now ssl = none) ∨
      ∃ i clients others, clientInit s.clients now ssl = some (i, clients) ∧
        clientInit t.clients now ssl = some (i, others) ∧
        SameOutput { s with clients } { t with clients := others } := by
  have searched : (t.clients.search fun c => c.state = .empty) =
      s.clients.search fun c => c.state = .empty := by
    apply ClientList.search_congr
    intro i
    have state : (t.clients.list i).state = (s.clients.list i).state := same.clients.state i
    simp only [state]
  unfold clientInit
  rw [same.nCli, searched]
  by_cases crowded : s.clients.nCli = maxClients
  · rw [if_pos crowded, if_pos crowded]
    exact .inl ⟨rfl, rfl⟩
  · rw [if_neg crowded, if_neg crowded]
    cases s.clients.search fun c => c.state = .empty with
    | none => exact .inl ⟨rfl, rfl⟩
    | some i =>
      refine .inr ⟨i, _, _, rfl, rfl, ?_⟩
      have configured : SameOutput (s.modify i (clientConfigure now ssl))
          (t.modify i (clientConfigure now ssl)) := by
        refine same.modify ?_
        rw [(same.client i).eq]
        exact ⟨rfl, (same.client i).queue.reset _⟩
      exact ⟨configured.client, rfl, same.db, same.epoll, same.openFds⟩

/-- A connection is taken alike; a descriptor that is not registered is not closed. -/
theorem acceptOne_output (same : SameOutput s t) (conn : Connection)
    (unknown : conn.fd ∉ s.epoll) :
    Agree (fun x y => y.1 = x.1 ∧ SameOutput x.2 y.2) SameFailure (acceptOne s conn)
      (acceptOne t conn) := by
  have unlisted : ¬ (conn.deleted = true ∧ conn.fd ∈ s.epoll) := fun known => unknown known.2
  have opened : SameOutput { s with openFds := conn.fd :: s.openFds }
      { t with openFds := conn.fd :: t.openFds } :=
    ⟨same.client, same.nCli, same.db, same.epoll, by rw [same.openFds]⟩
  simp only [acceptOne]
  rcases clientInit_output opened conn.now conn.ssl with
    ⟨none, none'⟩ | ⟨i, clients, others, taken, taken', alike⟩
  · simp only at none none'
    rw [none, none']
    exact (closeClient_output opened (leavesQuietly_of_unlisted unlisted)).bind
      fun u v both => ⟨rfl, both⟩
  · simp only at taken taken'
    rw [taken, taken']
    dsimp only
    by_cases added : conn.added = true ∧ conn.fd ∉ s.epoll
    · have added' : conn.added = true ∧ conn.fd ∉ t.epoll := by
        rw [same.epoll]
        exact added
      simp only [epollAdd, if_pos added, if_pos added']
      have registered : SameOutput { s with clients, openFds := conn.fd :: s.openFds, epoll := conn.fd :: s.epoll }
          { t with clients := others, openFds := conn.fd :: t.openFds, epoll := conn.fd :: t.epoll } :=
        ⟨alike.client, alike.nCli, alike.db, by rw [same.epoll], alike.openFds⟩
      exact ⟨rfl, registered.modify_blind i (fun _ _ => rfl) fun _ => rfl⟩
    · have added' : ¬ (conn.added = true ∧ conn.fd ∉ t.epoll) := by
        rw [same.epoll]
        exact added
      simp only [epollAdd, if_neg added, if_neg added']
      exact (closeClient_output alike (leavesQuietly_of_unlisted unlisted)).bind
        fun u v both => ⟨rfl, both⟩

/-- Two servers that differ in free slots handle an event alike. -/
theorem step_output (same : SameOutput s t) (nodup : s.epoll.Nodup) {e : Event}
    (whole : sendsWhole s e) : Agree SameOutput SameFailure (step s e) (step t e) := by
  cases e with
  | accept conn =>
    by_cases used : conn.fd ∈ s.openFds ∨ conn.fd ∈ s.epoll
    · have used' : conn.fd ∈ t.openFds ∨ conn.fd ∈ t.epoll := by
        rw [same.openFds, same.epoll]
        exact used
      simp only [step, if_pos used, if_pos used']
      exact same
    · have used' : ¬ (conn.fd ∈ t.openFds ∨ conn.fd ∈ t.epoll) := by
        rw [same.openFds, same.epoll]
        exact used
      simp only [step, if_neg used, if_neg used']
      exact (acceptOne_output same conn (not_or.mp used).2).bind fun x y both => both.2
  | handshake fd =>
    show SameOutput (completeHandshake s fd) (completeHandshake t fd)
    unfold completeHandshake
    rw [same.clients.find]
    cases clientFind s.clients fd with
    | none => exact same
    | some c =>
      dsimp only
      rw [same.clients.state]
      split
      · exact same.modify_blind c (fun _ _ => rfl) fun _ => rfl
      · exact same
  | wantMore fd bytes =>
    show Agree SameOutput SameFailure (sslWantMore s fd bytes) (sslWantMore t fd bytes)
    unfold sslWantMore
    rw [same.clients.find]
    cases clientFind s.clients fd with
    | none => exact same
    | some c =>
      dsimp only
      have kept := queueAll_tls (s.client c) (bioPieces bytes.length bytes)
      rw [(same.client c).eq, queueAll_queue]
      cases queued : (bioPieces bytes.length bytes).foldlM secureQueueWrite (s.client c) with
      | error fault => exact same.failure fault
      | ok d =>
        rw [queued] at kept
        refine same.modify (d.withQueue_same ?_)
        have queue : d.msgQueue = (s.client c).msgQueue := by
          have whole : (s.client c).SameButSecure d := kept
          have same := congrArg Client.msgQueue whole.rest
          exact same
        rw [queue]
        exact (same.client c).queue
  | recv fd chunk =>
    show Agree SameOutput SameFailure (readData s fd chunk) (readData t fd chunk)
    have delivers : ∀ c t, s.delivers (.recv fd chunk) = some (c, t) → t.writesWhole c := whole
    simp only [Server.delivers] at delivers
    unfold readData
    rw [same.clients.find]
    cases found : clientFind s.clients fd with
    | none => exact same.failure .client
    | some c =>
      have buffer := same.clients.decryptBuf c
      have secured : (t.client c).secured = (s.client c).secured := by
        simp only [Client.secured, same.clients.state]
      simp only [found] at delivers
      dsimp only
      rw [secured, buffer]
      by_cases ready : (s.client c).secured = true ∧ 0 < chunk.length ∧
          (chunk.length : Int) ≤ (s.client c).decryptBuf.wanted
      · rw [if_pos ready] at delivers
        rw [if_pos ready, if_pos ready, decryptData_eq, decryptData_eq, buffer]
        have received (buf : Buffer packetMaxSize) :
            SameOutput (s.received c buf) (t.received c buf) :=
          same.modify_blind c (fun _ _ => rfl) fun _ => rfl
        cases read : (s.client c).decryptBuf.receive chunk with
        | none => exact same.failure .outOfBounds
        | some result =>
          obtain ⟨whole, buf⟩ := result
          rw [read] at delivers
          cases whole with
          | false => exact received buf
          | true =>
            have same := received buf
            have handed : SameOutput (s.handed c buf) (t.handed c buf) :=
              ⟨same.client, same.nCli, same.db, same.epoll, same.openFds⟩
            refine (analizePacket_output handed (delivers c _ rfl)).bind fun u v both => ?_
            exact both.modify_blind c (fun _ _ => rfl) fun _ => rfl
      · rw [if_neg ready, if_neg ready]
        exact same
  | write fd env =>
    show Agree SameOutput SameFailure (writeData s fd env) (writeData t fd env)
    unfold writeData
    rw [same.clients.find]
    cases found : clientFind s.clients fd with
    | none => exact same
    | some i =>
      dsimp only
      rw [(same.client i).queue.count]
      exact writeLoop_output _ same nodup .ok env fun fails => whole i found fails
  | close fd deleted => exact closeClient_output same whole

end Events

/-! Runs -/

section Runs

variable {s t : Server} {e : Event} {events : List Event}

/-- Every queue is well formed, and no descriptor is registered twice. -/
structure Server.WellFormed (s : Server) : Prop where
  valid : s.QueuesValid
  nodup : s.epoll.Nodup

theorem Server.WellFormed.step (formed : s.WellFormed) (taken : Quickshare.step s e = .ok t) :
    t.WellFormed := by
  have valid := formed.valid.step e
  have nodup := step_epoll_nodup formed.nodup e
  rw [taken] at valid nodup
  exact ⟨valid, nodup⟩

theorem reached_wellFormed {db : Database} (reached : run step (Server.init db) events = .ok s) :
    s.WellFormed :=
  run_invariant ⟨init_queuesValid db, List.nodup_nil⟩ (fun _ _ _ formed => formed.step) reached

/-- The queues differ in the contents of slots that hold no packet. -/
structure Queue.SameQueued (q q' : Queue Packet) : Prop where
  head : q'.head = q.head
  tail : q'.tail = q.tail
  len : q'.len = q.len
  count : q'.count = q.count
  contents : q'.contents = q.contents

/-- The states differ in the contents of queue slots that hold no packet. -/
structure DiffersInFreeSlots (s t : Server) : Prop where
  clients : SameClients s t
  queue : ∀ i, (s.client i).msgQueue.SameQueued (t.client i).msgQueue
  nCli : t.clients.nCli = s.clients.nCli
  db : t.db = s.db
  epoll : t.epoll = s.epoll
  openFds : t.openFds = s.openFds

theorem DiffersInFreeSlots.output (differs : DiffersInFreeSlots s t) (valid : s.QueuesValid) :
    SameOutput s t where
  client := fun i =>
    have queue := differs.queue i
    ⟨differs.clients i, valid i, queue.head, queue.tail, queue.len, queue.count,
      by rw [queue.contents]⟩
  nCli := differs.nCli
  db := differs.db
  epoll := differs.epoll
  openFds := differs.openFds

/-- The slot that `enqueue` hands out next holds no packet. -/
theorem Queue.Valid.fill_head {q : Queue Packet} (valid : q.Valid) (room : q.full ≠ true)
    (f : Packet → Packet) : q.SameQueued (q.fill q.head f) where
  head := rfl
  tail := rfl
  len := rfl
  count := rfl
  contents := by
    have fewer := valid.count_le
    have less : q.count < q.len := by
      have space : q.count ≠ q.len := by simpa [Queue.full] using room
      omega
    apply Ring.contents_congr
    intro k held
    have apart : (q.tail + k) % q.len ≠ (q.tail + q.count) % q.len := Ring.index_ne held less
    exact Function.update_of_ne (valid.head_eq ▸ apart) _ _

/-- Whatever the next free slot of one queue holds, the states differ in free slots. -/
theorem Server.WellFormed.fill_differs (formed : s.WellFormed) {i : Slot}
    (room : (s.client i).msgQueue.full ≠ true) (f : Packet → Packet) :
    DiffersInFreeSlots s (s.fill i (s.client i).msgQueue.head f) where
  clients := fun j => by
    by_cases here : j = i
    · subst here
      rw [Server.fill, Server.client_modify_self]
      rfl
    · rw [Server.fill, Server.client_modify_of_ne _ _ here]
  queue := fun j => by
    by_cases here : j = i
    · subst here
      rw [Server.fill, Server.client_modify_self]
      exact (formed.valid j).fill_head room f
    · rw [Server.fill, Server.client_modify_of_ne _ _ here]
      exact ⟨rfl, rfl, rfl, rfl, rfl⟩
  nCli := rfl
  db := rfl
  epoll := rfl
  openFds := rfl

/-- For every client the same packets have been sealed and the same bytes written. -/
def SameTransmitted (s t : Server) : Prop := ∀ i, (t.client i).secure = (s.client i).secure

/-- From both states the events transmit the same, or stop at the same assertion
having transmitted the same. -/
structure TransmitsSame (s t : Server) (events : List Event) : Prop where
  agree : Agree SameTransmitted (fun left right => right.1 = left.1 ∧ SameTransmitted left.2 right.2)
    (run step s events) (run step t events)

theorem not_TransmitsSame {u v : Server} {i : Slot} (left : run step s events = .ok u)
    (right : run step t events = .ok v) (differs : (v.client i).secure ≠ (u.client i).secure) :
    ¬ TransmitsSame s t events := by
  intro same
  have agree := same.agree
  rw [left, right] at agree
  exact differs (agree i)

theorem SameClients.transmitted (same : SameClients s t) : SameTransmitted s t :=
  fun i => same.secure i

/-- Two states that differ in free queue slots transmit the same bytes from then
on, as long as nobody is told of a cancelled transfer and nobody joins others in
a session. -/
theorem free_slots_hidden (formed : s.WellFormed) (differs : DiffersInFreeSlots s t)
    (whole : Guarded step sendsWhole s events) : TransmitsSame s t events := by
  let same (s t : Server) : Prop := SameOutput s t ∧ s.epoll.Nodup
  have start : same s t := ⟨differs.output formed.valid, formed.nodup⟩
  have keep : ∀ s t e, same s t → sendsWhole s e → Agree same SameFailure (step s e) (step t e) := by
    intro s t e both whole
    have kept := step_epoll_nodup both.2 e
    refine (step_output both.1 both.2 whole).mono fun u v done _ alike => ⟨alike, ?_⟩
    rwa [done] at kept
  have ran := whole.agree start keep
  refine ⟨(ran.mono fun u v _ _ both => both.1.clients.transmitted).mono_fail fun left right same => ?_⟩
  exact ⟨same.fault, same.clients.transmitted⟩

end Runs

theorem desk_reached : run step (Server.init .fresh) deskRun = .ok desk := by
  have checked : Run.passes (fun _ => true) (run step (Server.init .fresh) deskRun) = true := by
    decide +kernel
  obtain ⟨s, reached, -⟩ := Run.passes_ok checked
  rw [desk, reached]
  rfl

/-- The server with junk in the slot that `enqueue` hands out next for `i`. -/
def Server.littered (s : Server) (i : Slot) : Server :=
  s.fill i (s.client i).msgQueue.head fun p => p.store 24 1 1

/-- All that waits for the second client is written. -/
def flush : Event := .write 5 ⟨List.replicate 6 (.wrote 100000), [], true⟩

/-- A byte of the last packet sealed for the second client. -/
def lastSealed (s : Server) (k : Nat) : Option UInt8 := do
  let ssl ← (s.client 1).secure.ssl
  let last ← ssl.sealed.getLast?
  last[k]?

theorem Server.WellFormed.littered {s : Server} (formed : s.WellFormed) {i : Slot}
    (room : (s.client i).msgQueue.full ≠ true) : DiffersInFreeSlots s (s.littered i) :=
  formed.fill_differs room _

theorem flush_works : ¬ writeFails (desk.client 1) ⟨List.replicate 6 (.wrote 100000), [], true⟩ := by
  intro fails
  have done : ((writeClient ((desk.client 1).msgQueue.count + 1) (desk.client 1) .ok
      ⟨List.replicate 6 (.wrote 100000), [], true⟩).map Prod.fst).toOption = some true := by
    decide +kernel
  rw [writeFails] at fails
  rw [fails] at done
  cases done

/-- Without a further packet the junk stays where it is. -/
theorem free_slots_hidden_flush : TransmitsSame desk (desk.littered 1) [flush] := by
  have formed := reached_wellFormed desk_reached
  have room : (desk.client 1).msgQueue.full ≠ true := by decide +kernel
  have whole : sendsWhole desk flush := by
    intro i found fails
    have seat : clientFind desk.clients 5 = some 1 := by decide +kernel
    obtain rfl : (1 : Slot) = i := Option.some.inj (seat.symm.trans found)
    exact absurd fails flush_works
  exact free_slots_hidden formed (formed.littered room) (.single whole)

/-- The second client is told of a cancelled transfer with the junk. -/
theorem free_slots_hidden_fails : run step (Server.init .fresh) deskRun = .ok desk ∧
    DiffersInFreeSlots desk (desk.littered 1) ∧
    ¬ TransmitsSame desk (desk.littered 1) (packetFrom 4 .transferCancel (stateBody 1) ++ [flush]) := by
  have clean : Run.passes (fun s => lastSealed s 24 = some 0)
      (run step desk (packetFrom 4 .transferCancel (stateBody 1) ++ [flush])) = true := by
    decide +kernel
  have junk : Run.passes (fun s => lastSealed s 24 = some 1)
      (run step (desk.littered 1) (packetFrom 4 .transferCancel (stateBody 1) ++ [flush])) = true := by
    decide +kernel
  obtain ⟨u, left, zero⟩ := Run.passes_ok clean
  obtain ⟨v, right, one⟩ := Run.passes_ok junk
  have room : (desk.client 1).msgQueue.full ≠ true := by decide +kernel
  refine ⟨desk_reached, (reached_wellFormed desk_reached).littered room, ?_⟩
  refine not_TransmitsSame (i := 1) left right fun secure => ?_
  have equal : lastSealed v 24 = lastSealed u 24 := by simp only [lastSealed, secure]
  rw [of_decide_eq_true zero, of_decide_eq_true one] at equal
  cases equal

end Quickshare
