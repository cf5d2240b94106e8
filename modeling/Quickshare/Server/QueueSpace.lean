import Quickshare.Server.Bounds
import Quickshare.Server.WriteLoop

/-! Room in the message queues. Handlers assert that `enqueue` gave them a slot,
so an event aborts the server exactly when its plan asks for more slots than
some client has left. -/

namespace Quickshare

open Runs

variable {s t : Server} {c i r : Slot} {fd : Int} {plan : Plan}

/-- Every queue is a well-formed ring, free slots included. -/
def Server.QueuesValid (s : Server) : Prop := ∀ i, (s.client i).msgQueue.Valid

theorem Server.QueuesValid.bounded (valid : s.QueuesValid) : s.Bounded :=
  fun i => (valid i).count_le

theorem Server.QueuesValid.modify (valid : s.QueuesValid) (f : Client → Client)
    (client : (f (s.client i)).msgQueue.Valid) : (s.modify i f).QueuesValid := by
  intro j
  by_cases here : j = i
  · subst here
    rw [client_modify_self]
    exact client
  · rw [client_modify_of_ne _ _ here]
    exact valid j

theorem Queue.Valid.pushed {Item : Type} {q : Queue Item} (valid : q.Valid) (room : q.full ≠ true)
    (f : Item → Item) : (q.pushed f).Valid := by
  have taken : q.enqueue = some (q.head,
      { q with head := (q.head + 1) &&& (q.len - 1), count := q.count + 1 }) := if_neg room
  exact (valid.enqueue taken).fill _ _

theorem Server.QueuesValid.of_queues (valid : s.QueuesValid)
    (same : ∀ i, (t.client i).msgQueue = (s.client i).msgQueue) : t.QueuesValid :=
  fun i => same i ▸ valid i

theorem Server.QueuesValid.pushed (valid : s.QueuesValid)
    (room : (s.client r).msgQueue.full ≠ true) (f : Packet → Packet) :
    (s.pushed r f).QueuesValid := by
  have kept : (s.modify r fun c => { c with msgQueue := c.msgQueue.pushed f }).QueuesValid :=
    valid.modify _ ((valid r).pushed room f)
  exact kept

theorem Server.QueuesValid.sendAll (valid : s.QueuesValid) (plan : Plan) :
    Ends Server.QueuesValid (fun _ => True) (s.sendAll plan) := by
  induction plan generalizing s with
  | nil => exact valid
  | cons head rest ih =>
    obtain ⟨r, f⟩ := head
    rw [Server.sendAll_cons]
    split
    · trivial
    · rename_i room
      exact ih (valid.pushed room f)

theorem Sends.queuesValid {db : Database} {r : Run Server} (sends : Sends s plan db r)
    (valid : s.QueuesValid) : Ends Server.QueuesValid (fun _ => True) r := by
  cases r with
  | error failed => trivial
  | ok t =>
    obtain ⟨u, sent, rfl⟩ := sends.ok t rfl
    have kept := valid.sendAll plan
    rw [sent] at kept
    exact kept

theorem Server.terminated_queue (s : Server) (c i : Slot) :
    ((s.terminated c).client i).msgQueue = (s.client i).msgQueue :=
  s.clients.modify_field c (fun client => { client with
    decryptBuf := { client.decryptBuf with data := terminateIntro (s.client c).decryptBuf.packet } })
    Client.msgQueue (fun _ => rfl) i

theorem Server.completed_queue (s : Server) (c i : Slot) (session : SessionId)
    (name : List UInt8) :
    ((s.completed c session name).client i).msgQueue = (s.client i).msgQueue :=
  s.clients.modify_field c
    (fun client => { client with state := .complete, sessionId := session, name })
    Client.msgQueue (fun _ => rfl) i

theorem Server.QueuesValid.packetIntro (valid : s.QueuesValid) (c : Slot) :
    Ends Server.QueuesValid (fun _ => True) (packetIntro s c) := by
  rw [packetIntro_eq]
  by_cases abnormal : (s.client c).state = .complete ∨
      (s.client c).decryptBuf.packet.introSession > 1
  · rw [if_pos abnormal]
    exact (serverResponse_sends s c .serverDeny).queuesValid valid
  · rw [if_neg abnormal]
    generalize s.introduced c = opened
    generalize (terminateIntro (s.client c).decryptBuf.packet).introName = name
    have terminated : Server.QueuesValid { s.terminated c with db := opened.2 } :=
      valid.of_queues (s.terminated_queue c)
    dsimp only
    split
    · exact (serverResponse_sends _ c .serverDeny).queuesValid terminated
    · refine ((serverResponse_sends _ c .serverOk).queuesValid terminated).bind fun t kept => ?_
      exact (sendSessionUsers_sends _ c).queuesValid
        (kept.of_queues fun i => t.completed_queue c i opened.1 name)

theorem Server.QueuesValid.packetTransfer (valid : s.QueuesValid) (c : Slot) :
    Ends Server.QueuesValid (fun _ => True) (packetTransfer s c) := by
  by_cases begun : s.begun.1 = true
  · by_cases recorded : (s.recorded c).1 = true
    · exact (packetTransfer_granted begun recorded).queuesValid (valid.of_queues fun i => rfl)
    · obtain ⟨r, sends, same⟩ := packetTransfer_refused begun (by simpa using recorded)
      rw [same]
      refine (sends.queuesValid valid).bind fun t kept => ?_
      generalize (debugTransfer (s.client c).decryptBuf.packet).inside = inside
      cases inside
      · trivial
      · exact kept
  · exact (packetTransfer_busy (by simpa using begun)).queuesValid valid

theorem Server.QueuesValid.analizePacket (valid : s.QueuesValid) (c : Slot) :
    Ends Server.QueuesValid (fun _ => True) (analizePacket s c) := by
  unfold Quickshare.analizePacket
  split
  · exact valid.packetIntro c
  · exact valid.packetTransfer c
  · by_cases gone : s.creatorGone c
    · rw [packetReply_gone gone]
      trivial
    · exact (packetReply_sends gone).queuesValid valid
  · exact (packetData_sends s c).queuesValid valid
  · exact (packetComplete_sends s c).queuesValid valid
  · exact (packetCancel_sends s c).queuesValid valid
  · exact valid

theorem Client.Drains.queue_valid {c d : Client} (drains : c.Drains d) (valid : c.msgQueue.Valid) :
    d.msgQueue.Valid := by
  rcases drains.queue with same | ⟨x, taken⟩
  · rwa [same]
  · exact valid.dequeue taken

theorem Server.closed_queue (s : Server) (fd : Int) (i : Slot) :
    ((s.closed fd).client i).msgQueue = (s.client i).msgQueue := by
  by_cases found : clientFind s.clients fd = some i
  · simp [Server.client, Server.closed, clientClose_self found, Client.freed]
  · simp [Server.client, Server.closed, clientClose_of_ne found]

theorem queuesValid_rule : StepRule Server.QueuesValid fun _ => True where
  fail := fun _ _ _ _ => trivial
  drain := fun s i d valid drains => valid.modify (fun _ => d) (drains.queue_valid (valid i))
  close := fun s fd deleted valid => by
    rw [closeClient_eq]
    split
    · have kept : Server.QueuesValid { s with epoll := s.epoll.erase fd } :=
        valid.of_queues fun i => rfl
      dsimp only
      split
      · exact kept
      · exact ((leaveSession_sends _ _).queuesValid kept).bind
          fun t left => left.of_queues (t.closed_queue fd)
    · exact valid
  frame := fun s _ _ valid => valid.of_queues fun i => rfl
  setFd := fun s i fd valid => valid.modify _ (valid i)
  secured := fun s i valid _ => valid.modify _ (valid i)

theorem Server.QueuesValid.decryptData (valid : s.QueuesValid) (chunk : List UInt8) :
    Ends Server.QueuesValid (fun _ => True) (decryptData s c chunk) := by
  have received (buf : Buffer packetMaxSize) : (s.received c buf).QueuesValid :=
    valid.modify _ (valid c)
  refine decryptData_ends trivial (fun buf _ => received buf) fun buf _ => ?_
  have handed : (s.handed c buf).QueuesValid := received buf
  exact (handed.analizePacket c).mono (fun t _ kept => kept.modify _ (kept c))
    fun _ _ => trivial

theorem Server.QueuesValid.step (valid : s.QueuesValid) (e : Event) :
    Ends Server.QueuesValid (fun _ => True) (step s e) :=
  queuesValid_rule.step valid e
    (fun conn i clients _ _ _ taken => by
      obtain ⟨-, rfl⟩ := clientInit_some taken
      have reset : Server.QueuesValid (s.modify i (clientConfigure conn.now conn.ssl)) :=
        valid.modify _ ((valid i).reset _)
      exact reset)
    fun _ chunk _ _ _ _ _ _ => valid.decryptData chunk

theorem init_queuesValid (db : Database) : (Server.init db).QueuesValid := fun i =>
    { power := ⟨4, rfl⟩
      count_le := Nat.zero_le _
      tail_lt := show 0 < 16 by decide
      head_eq := rfl }

/-! The plan of a packet -/

/-- `c` as `packet_intro` registers it, with the queues of `s`. -/
def Server.joined (s : Server) (c : Slot) : Server :=
  (s.terminated c).completed c (s.introduced c).1
    (terminateIntro (s.client c).decryptBuf.packet).introName

/-- One answer, and when the introduction is accepted the packets to and about
the session. -/
def introductionPlan (s : Server) (c : Slot) : Plan :=
  if (s.client c).state = .complete ∨ (s.client c).decryptBuf.packet.introSession > 1 ∨
      (s.introduced c).1 = 0 then
    [(c, Packet.packetHdr .serverDeny 0)]
  else (c, Packet.packetHdr .serverOk 0) ::
    introPlan (s.joined c) c ((List.finRange maxClients).filter ((s.joined c).peer c))

def requestPlan (s : Server) (c : Slot) : Plan :=
  if s.begun.1 ∧ (s.recorded c).1 then
    grantPlan s c (s.client c).decryptBuf.packet (s.recorded c).2.1
  else refusePlan s c

/-- What handling the packet of `c` sends when every queue has room. -/
def packetPlan (s : Server) (c : Slot) : Plan :=
  match (s.client c).decryptBuf.packet.type? with
  | some .clientIntro => introductionPlan s c
  | some .transferRequest => requestPlan s c
  | some .transferReply => (replyPlan s c).1
  | some .transferData => (dataPlan s c).1
  | some .transferComplete => (completePlan s c).1
  | some .transferCancel => (cancelPlan s c).1
  | _ => []

/-- The computation fails the assertion that `enqueue` returned a slot. -/
def Overflows {Result : Type} (r : Run Result) : Prop := ∃ t, r = .error (.packet, t)

theorem overflows_map {Result Last : Type} (r : Run Result) (f : Result → Last) :
    Overflows (r.bind fun x => .ok (f x)) ↔ Overflows r := by
  cases r <;> simp [Overflows, Except.bind]

theorem not_overflows_ok {Result : Type} (x : Result) : ¬ Overflows (.ok x) :=
  fun ⟨_, same⟩ => nomatch same

theorem Server.fits_nil (bounded : s.Bounded) : s.Fits [] := fun i => by simpa using bounded i

theorem Sends.overflows_iff {db : Database} {r : Run Server} (sends : Sends s plan db r)
    (bounded : s.Bounded) : Overflows r ↔ ¬ s.Fits plan := by
  rcases sends.cases bounded with ⟨fits, t, done⟩ | ⟨large, t, failed⟩
  · simp [Overflows, done, fits]
  · exact iff_of_true ⟨t, failed⟩ large

theorem packetTransfer_overflows_iff (bounded : s.Bounded) (c : Slot) :
    Overflows (packetTransfer s c) ↔ ¬ s.Fits (requestPlan s c) := by
  unfold requestPlan
  by_cases begun : s.begun.1 = true
  · by_cases recorded : (s.recorded c).1 = true
    · rw [if_pos ⟨begun, recorded⟩]
      exact (packetTransfer_granted begun recorded).overflows_iff bounded
    · rw [if_neg fun both => recorded both.2]
      obtain ⟨r, sends, same⟩ := packetTransfer_refused begun (by simpa using recorded)
      rw [same, ← sends.overflows_iff bounded]
      generalize (debugTransfer (s.client c).decryptBuf.packet).inside = inside
      cases r with
      | ok t => cases inside <;> simp [Overflows, Except.bind]
      | error failed => simp [Overflows, Except.bind]
  · rw [if_neg fun both => begun both.1]
    exact (packetTransfer_busy (by simpa using begun)).overflows_iff bounded

theorem packetReply_overflows_iff (bounded : s.Bounded) (c : Slot) :
    Overflows (packetReply s c) ↔ ¬ s.Fits (replyPlan s c).1 := by
  by_cases gone : s.creatorGone c
  · have empty : (replyPlan s c).1 = [] := by
      simp only [replyPlan, if_neg gone.1, toConnected, List.flatMap_singleton, id, gone.2]
      rfl
    rw [packetReply_gone gone, empty]
    simp [Overflows, Server.fits_nil bounded]
  · exact (packetReply_sends gone).overflows_iff bounded

theorem introPlan_receivers (same : SameClients s t) (c : Slot) :
    (introPlan t c ((List.finRange maxClients).filter (t.peer c))).map Prod.fst =
      (introPlan s c ((List.finRange maxClients).filter (s.peer c))).map Prod.fst := by
  have peers : t.peer c = s.peer c := funext (same.peer c)
  unfold introPlan
  rw [peers]
  split <;> simp

theorem completed_same (same : SameClients s t) (c : Slot) (session : SessionId)
    (name : List UInt8) : SameClients (s.completed c session name) (t.completed c session name) := by
  intro i
  by_cases here : i = c
  · subst here
    simp only [Server.completed, Server.client_modify_self]
    have kept := same i
    simp only [Client.bare] at kept ⊢
    injection kept with id fd _ _ _ _ decryptBuf secure
    simp only [id, fd, decryptBuf, secure]
  · simp only [Server.completed, Server.client_modify_of_ne _ _ here]
    exact same i

theorem packetIntro_overflows_iff (bounded : s.Bounded) (c : Slot) :
    Overflows (packetIntro s c) ↔ ¬ s.Fits (introductionPlan s c) := by
  rw [packetIntro_eq]
  unfold introductionPlan Server.joined
  by_cases abnormal : (s.client c).state = .complete ∨
      (s.client c).decryptBuf.packet.introSession > 1
  · rw [if_pos abnormal, if_pos (abnormal.elim .inl fun high => .inr (.inl high))]
    exact (serverResponse_sends s c .serverDeny).overflows_iff bounded
  · obtain ⟨new, low⟩ := not_or.mp abnormal
    rw [if_neg abnormal]
    generalize s.introduced c = opened
    generalize (terminateIntro (s.client c).decryptBuf.packet).introName = name
    have queue (i : Slot) : (Server.client { s.terminated c with db := opened.2 } i).msgQueue =
        (s.client i).msgQueue := s.terminated_queue c i
    have terminated : Server.Bounded { s.terminated c with db := opened.2 } := fun i => by
      rw [queue]
      exact bounded i
    have fits (plan other : Plan) (same : plan.map Prod.fst = other.map Prod.fst) :
        Server.Fits { s.terminated c with db := opened.2 } plan ↔ s.Fits other := by
      simp only [Server.Fits, queue, same]
    by_cases refused : opened.1 = 0
    · simp only [refused, new, low, or_true, if_true]
      rw [(serverResponse_sends _ c .serverDeny).overflows_iff terminated, fits _ _ rfl]
    · simp only [refused, new, low, or_self, if_false]
      have joined : SameClients ((s.terminated c).completed c opened.1 name)
          (Server.completed { s.terminated c with db := opened.2 } c opened.1 name) :=
        completed_same (.of_clients rfl) c opened.1 name
      generalize { s.terminated c with db := opened.2 } = u at terminated fits joined
      rw [← fits ((c, Packet.packetHdr .serverOk 0) :: introPlan
        (u.completed c opened.1 name) c ((List.finRange maxClients).filter
          ((u.completed c opened.1 name).peer c))) _ (by simp [introPlan_receivers joined])]
      rw [serverResponse, Server.send_eq]
      by_cases full : (u.client c).msgQueue.full = true
      · rw [if_pos full]
        refine iff_of_true ⟨u, rfl⟩ fun room => ?_
        rcases Server.sendAll_cases terminated _ with ⟨-, v, done⟩ | ⟨large, -⟩
        · rw [Server.sendAll_cons, if_pos full] at done
          cases done
        · exact large room
      · rw [if_neg full]
        have pushed := u.pushed_same c (Packet.packetHdr .serverOk 0)
        have queue (i : Slot) : (((u.pushed c (Packet.packetHdr .serverOk 0)).completed c opened.1
            name).client i).msgQueue =
              ((u.pushed c (Packet.packetHdr .serverOk 0)).client i).msgQueue :=
          Server.completed_queue _ c i opened.1 name
        have room := Server.pushed_bounded (f := Packet.packetHdr .serverOk 0) terminated full
        have sends := sendSessionUsers_sends ((u.pushed c (Packet.packetHdr .serverOk 0)).completed c
          opened.1 name) c
        refine (sends.overflows_iff fun i => by rw [queue]; exact room i).trans (not_congr ?_)
        rw [← Server.pushed_fits]
        simp only [Server.Fits, queue, introPlan_receivers (completed_same pushed c opened.1 name)]

/-- Handling a packet overflows a queue exactly if the plan of the packet does
not fit. -/
theorem analizePacket_overflows_iff (bounded : s.Bounded) (c : Slot) :
    Overflows (analizePacket s c) ↔ ¬ s.Fits (packetPlan s c) := by
  have idle : Overflows (.ok s) ↔ ¬ s.Fits [] := by
    simp [Overflows, Server.fits_nil bounded]
  simp only [analizePacket, packetPlan]
  cases (s.client c).decryptBuf.packet.type? with
  | none => exact idle
  | some type =>
    cases type with
    | clientIntro => exact packetIntro_overflows_iff bounded c
    | transferRequest => exact packetTransfer_overflows_iff bounded c
    | transferReply => exact packetReply_overflows_iff bounded c
    | transferData => exact (packetData_sends s c).overflows_iff bounded
    | transferComplete => exact (packetComplete_sends s c).overflows_iff bounded
    | transferCancel => exact (packetCancel_sends s c).overflows_iff bounded
    | _ => exact idle

/-! The plan of an event -/

/-- If `close_client` gets to close a client, its farewells fit. -/
def closeFits (s : Server) (fd : Int) (deleted : Bool) : Prop :=
  deleted = true → fd ∈ s.epoll → ∀ c, clientFind s.clients fd = some c →
    s.Fits (leavingPlan s c).1

theorem closeClient_overflows_iff (bounded : s.Bounded) (fd : Int) (deleted : Bool) :
    Overflows (closeClient s fd deleted) ↔ ¬ closeFits s fd deleted := by
  rw [closeClient_eq]
  unfold closeFits
  by_cases known : deleted = true ∧ fd ∈ s.epoll
  · rw [if_pos known]
    dsimp only
    cases found : clientFind s.clients fd with
    | none => simp [not_overflows_ok]
    | some c =>
      have sends := leaveSession_sends { s with epoll := s.epoll.erase fd } c
      have fits : Server.Fits { s with epoll := s.epoll.erase fd }
          (leavingPlan { s with epoll := s.epoll.erase fd } c).1 ↔ s.Fits (leavingPlan s c).1 :=
        Iff.rfl
      rw [overflows_map, sends.overflows_iff bounded, fits]
      simp [known.1, known.2]
  · rw [if_neg known]
    refine iff_of_false (not_overflows_ok s) fun missed => missed fun first second => ?_
    exact absurd ⟨first, second⟩ known

/-- If `write_data` fails, and so closes its client, the farewells fit beside what the
writing has left in the queue of that client. -/
def writeFits (s : Server) (fd : Int) (env : WriteEnv) : Prop :=
  ∀ i d, clientFind s.clients fd = some i →
    writeClient ((s.client i).msgQueue.count + 1) (s.client i) .ok env = .ok (false, d) →
    closeFits (s.modify i fun _ => d.acted .close) fd env.deleted

theorem overflows_bind {Result Last : Type} {r : Run Result} {next : Result → Run Last}
    (quiet : Ends (fun x => ¬ Overflows (next x)) (fun _ => True) r) :
    Overflows (r.bind next) ↔ Overflows r := by
  cases r with
  | ok x => exact iff_of_false quiet (not_overflows_ok x)
  | error failed => simp [Overflows, Except.bind]

theorem not_overflows {Result : Type} {r : Run Result} {post : Result → Prop}
    (ends : Ends post (fun failed => failed.1 ≠ .packet) r) : ¬ Overflows r := by
  rintro ⟨t, full⟩
  rw [full] at ends
  exact ends rfl

/-- Once the descriptor cannot be deleted, writing meets no full queue. -/
theorem unlisted_fits (fd : Int) (deleted : Bool) :
    WriteRuleAt fd deleted (fun t => ¬ (deleted = true ∧ fd ∈ t.epoll))
      fun failed => failed.1 ≠ .packet where
  fail := fun s fault sealing _ full => by
    cases full
    cases sealing
  drain := fun _ _ _ idle _ => idle
  close := fun s idle => by
    rw [closeClient_eq, if_neg idle]
    exact idle

theorem writeData_overflows_iff (valid : s.QueuesValid) (nodup : s.epoll.Nodup) (fd : Int)
    (env : WriteEnv) : Overflows (writeData s fd env) ↔ ¬ writeFits s fd env := by
  unfold writeData writeFits
  cases found : clientFind s.clients fd with
  | none => exact iff_of_false (not_overflows_ok s) fun missed => missed fun i d same => nomatch same
  | some i =>
    dsimp only
    have left := writeClient_valid ((s.client i).msgQueue.count + 1) (valid i) .ok env
    rcases writeLoop_cases ((s.client i).msgQueue.count + 1) s i fd .ok env with
      ⟨fault, t, stopped, ended⟩ | ⟨d, wrote, -, ended⟩ | ⟨d, failed, -, next, ended, goes⟩
    · rw [stopped] at left
      rw [ended]
      refine iff_of_false ?_ fun missed => missed fun j d same failed => ?_
      · rintro ⟨u, same⟩
        cases same
        cases left
      · cases same
        cases stopped.symm.trans failed
    · rw [ended]
      refine iff_of_false (not_overflows_ok _) fun missed => missed fun j d' same failed => ?_
      cases same
      cases wrote.symm.trans failed
    · rw [failed] at left
      rw [ended]
      have queues : (s.modify i fun _ => d.acted .close).QueuesValid := valid.modify _ left
      have closing : writeClose (s.modify i fun _ => d) i fd env.deleted =
          closeClient (s.modify i fun _ => d.acted .close) fd env.deleted := by
        unfold writeClose
        rw [s.modify_modify]
        rfl
      rw [closing]
      have gone := closeClient_unlisted (s := s.modify i fun _ => d.acted .close) nodup fd env.deleted
      have quiet : Ends (fun t => ¬ Overflows (next t)) (fun _ => True)
          (closeClient (s.modify i fun _ => d.acted .close) fd env.deleted) := by
        refine gone.mono (fun t _ idle => ?_) fun _ _ => trivial
        exact not_overflows (goes.keeps (unlisted_fits fd env.deleted) idle)
      refine (overflows_bind quiet).trans
        ((closeClient_overflows_iff queues.bounded fd env.deleted).trans (not_congr ?_))
      refine ⟨fun fits j d' same taken => ?_, fun all => all i d rfl failed⟩
      cases same
      cases failed.symm.trans taken
      exact fits

/-- If these bytes complete a packet, what handling it sends fits. -/
def recvFits (s : Server) (fd : Int) (chunk : List UInt8) : Prop :=
  ∀ c buf, clientFind s.clients fd = some c → (s.client c).secured →
    (s.client c).decryptBuf.readable chunk →
    (s.client c).decryptBuf.receive chunk = some (true, buf) →
    (s.received c buf).Fits (packetPlan (s.received c buf) c)

/-- What an event sends fits the free slots of every queue. -/
def eventFits (s : Server) : Event → Prop
  | .recv fd chunk => recvFits s fd chunk
  | .close fd deleted => closeFits s fd deleted
  | .write fd env => writeFits s fd env
  | _ => True

theorem decryptData_overflows_iff (valid : s.QueuesValid) (c : Slot) (chunk : List UInt8) :
    Overflows (decryptData s c chunk) ↔
      ¬ ∀ buf, (s.client c).decryptBuf.receive chunk = some (true, buf) →
        (s.handed c buf).Fits (packetPlan (s.handed c buf) c) := by
  rw [decryptData_eq]
  cases received : (s.client c).decryptBuf.receive chunk with
  | none =>
    refine iff_of_false (fun ⟨t, same⟩ => ?_) fun missed => missed fun buf same => nomatch same
    cases same
  | some result =>
    obtain ⟨whole, buf⟩ := result
    cases whole with
    | false =>
      exact iff_of_false (not_overflows_ok _) fun missed => missed fun buf same => nomatch same
    | true =>
      have received : (s.received c buf).QueuesValid := valid.modify _ (valid c)
      have kept : (s.handed c buf).QueuesValid := received
      refine (overflows_map _ _).trans
        ((analizePacket_overflows_iff kept.bounded c).trans (not_congr ?_))
      refine ⟨fun fits buf' same => ?_, fun all => all buf rfl⟩
      cases same
      exact fits

theorem readData_overflows_iff (valid : s.QueuesValid) (fd : Int) (chunk : List UInt8) :
    Overflows (readData s fd chunk) ↔ ¬ recvFits s fd chunk := by
  unfold readData recvFits
  cases found : clientFind s.clients fd with
  | none =>
    refine iff_of_false (fun ⟨t, same⟩ => ?_) fun missed => missed fun c buf same => nomatch same
    cases same
  | some c =>
    dsimp only
    by_cases ready : (s.client c).secured = true ∧ 0 < chunk.length ∧
        (chunk.length : Int) ≤ (s.client c).decryptBuf.wanted
    · rw [if_pos ready, decryptData_overflows_iff valid c chunk]
      refine not_congr ⟨fun fits c' buf same _ _ received => ?_, fun all buf =>
        all c buf rfl ready.1 ready.2⟩
      cases same
      exact fits buf received
    · rw [if_neg ready]
      refine iff_of_false (not_overflows_ok s) fun missed =>
        missed fun c' buf same secured readable => ?_
      cases same
      exact absurd ⟨secured, readable⟩ ready

theorem acceptOne_not_overflows (conn : Connection) (unknown : conn.fd ∉ s.epoll) :
    ¬ Overflows (acceptOne s conn) := by
  simp only [acceptOne]
  cases clientInit s.clients conn.now conn.ssl with
  | none =>
    simp only [closeClient, epollDel, unknown, and_false, if_false]
    exact not_overflows_ok _
  | some found =>
    by_cases added : conn.added = true
    · simp only [epollAdd, added, unknown, not_false_eq_true, and_self, if_true]
      exact not_overflows_ok _
    · simp only [epollAdd, added, Bool.false_eq_true, false_and, if_false, closeClient, epollDel,
        unknown, and_false]
      exact not_overflows_ok _

theorem sslWantMore_not_overflows (s : Server) (fd : Int) (bytes : List UInt8) :
    ¬ Overflows (sslWantMore s fd bytes) := by
  unfold sslWantMore
  cases clientFind s.clients fd with
  | none => exact not_overflows_ok s
  | some c =>
    dsimp only
    have queued := queueAll_tls (s.client c) (bioPieces bytes.length bytes)
    split
    · rename_i ended
      rw [ended] at queued
      rintro ⟨t, same⟩
      cases same
      cases queued
    · exact not_overflows_ok _

/-- The queues are in order, and no descriptor is registered twice. -/
structure Server.Ready (s : Server) : Prop where
  valid : s.QueuesValid
  nodup : s.epoll.Nodup

theorem Server.Ready.step (ready : s.Ready) (e : Event) :
    Ends Server.Ready (fun _ => True) (step s e) :=
  ((ready.valid.step e).and (step_epoll_nodup ready.nodup e)).mono
    (fun _ _ both => ⟨both.1, both.2⟩) fun _ _ => trivial

theorem step_overflows_iff (ready : s.Ready) (e : Event) :
    Overflows (step s e) ↔ ¬ eventFits s e := by
  cases e with
  | accept conn =>
    refine iff_of_false ?_ fun missed => missed trivial
    by_cases used : conn.fd ∈ s.openFds ∨ conn.fd ∈ s.epoll
    · simp only [step, if_pos used]
      exact not_overflows_ok s
    · simp only [step, if_neg used]
      exact mt (overflows_map _ _).mp (acceptOne_not_overflows conn (not_or.mp used).2)
  | handshake fd => exact iff_of_false (not_overflows_ok _) fun missed => missed trivial
  | wantMore fd bytes =>
    exact iff_of_false (sslWantMore_not_overflows s fd bytes) fun missed => missed trivial
  | recv fd chunk => exact readData_overflows_iff ready.valid fd chunk
  | write fd env => exact writeData_overflows_iff ready.valid ready.nodup fd env
  | close fd deleted => exact closeClient_overflows_iff ready.valid.bounded fd deleted

/-- Along every run no event overflows a queue, exactly if what every event
sends fits the free slots of the receivers' queues. -/
theorem no_overflow_iff (db : Database) (events : List Event) :
    Guarded step (fun s e => ¬ Overflows (step s e)) (Server.init db) events ↔
      Guarded step eventFits (Server.init db) events := by
  have start : (Server.init db).Ready := ⟨init_queuesValid db, List.nodup_nil⟩
  refine guarded_iff_guarded start (fun s e t ready _ taken => ?_) fun s e ready => ?_
  · have kept := ready.step e
    rwa [taken] at kept
  · rw [step_overflows_iff ready e, not_not]

/-- The header of an introduction without a body. -/
def emptyIntro : List UInt8 := [2, 0, 0, 0, 0, 0, 0, 0]

/-- Seventeen refused introductions before anything is written. -/
theorem no_overflow_fails : ¬ Guarded step (fun s e => ¬ Overflows (step s e)) (Server.init .fresh)
    (connects 4 100 ++
      List.replicate 17 (.recv 4 emptyIntro)) := by
  intro guarded
  have stopped : Run.fault? (run step (Server.init .fresh)
      (connects 4 100 ++
        List.replicate 17 (.recv 4 emptyIntro))) = some .packet := by
    decide +kernel
  obtain ⟨t, failed⟩ := Run.fault?_eq_some stopped
  obtain ⟨u, e, room, full⟩ := guarded.at_fault failed
  exact room ⟨t, full⟩

end Quickshare
