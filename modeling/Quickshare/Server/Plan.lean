import Quickshare.Server.Network

/-! Handlers seen through what they enqueue. Almost every handler only sends
packets and changes the database, so it is told by a plan, the receiving slots
in order with the packets, and the database it leaves. -/

namespace Quickshare

/-- Receivers in order, each with what fills the slot taken in its queue. -/
abbrev Plan := List (Slot × (Packet → Packet))

/-- All of a client but its queue; sending leaves it alone. -/
def Client.bare (c : Client) : Client := { c with msgQueue := Client.blank.msgQueue }

/-- Two states with the same clients, queues apart. -/
def SameClients (s t : Server) : Prop := ∀ i, (t.client i).bare = (s.client i).bare

section

variable {s t u : Server}

theorem SameClients.refl (s : Server) : SameClients s s := fun _ => rfl

theorem SameClients.of_clients (same : t.clients = s.clients) : SameClients s t :=
  fun i => by rw [Server.client, same, Server.client]

theorem SameClients.symm (same : SameClients s t) : SameClients t s := fun i => (same i).symm

theorem SameClients.trans (first : SameClients s t) (second : SameClients t u) :
    SameClients s u := fun i => (second i).trans (first i)

end

namespace SameClients

variable {s t : Server}

/-- Whatever does not look at the queue agrees. -/
theorem field {Field : Type} (same : SameClients s t) (i : Slot) (get : Client → Field)
    (blind : ∀ c, get c.bare = get c) : get (t.client i) = get (s.client i) := by
  rw [← blind (t.client i), same i, blind]

theorem id (same : SameClients s t) (i : Slot) : (t.client i).id = (s.client i).id :=
  same.field i Client.id fun _ => rfl

theorem fd (same : SameClients s t) (i : Slot) : (t.client i).fd = (s.client i).fd :=
  same.field i Client.fd fun _ => rfl

theorem state (same : SameClients s t) (i : Slot) : (t.client i).state = (s.client i).state :=
  same.field i Client.state fun _ => rfl

theorem sessionId (same : SameClients s t) (i : Slot) :
    (t.client i).sessionId = (s.client i).sessionId :=
  same.field i Client.sessionId fun _ => rfl

theorem decryptBuf (same : SameClients s t) (i : Slot) :
    (t.client i).decryptBuf = (s.client i).decryptBuf :=
  same.field i Client.decryptBuf fun _ => rfl

theorem secure (same : SameClients s t) (i : Slot) : (t.client i).secure = (s.client i).secure :=
  same.field i Client.secure fun _ => rfl

theorem sessions (same : SameClients s t) : t.sessions = s.sessions := by
  funext i
  simp only [Server.sessions, same.state, same.sessionId]

theorem findById (same : SameClients s t) (cId : ClientId) :
    clientFindById t.clients cId = clientFindById s.clients cId :=
  ClientList.search_congr fun i => by
    have state : (t.clients.list i).state = (s.clients.list i).state := same.state i
    have id : (t.clients.list i).id = (s.clients.list i).id := same.id i
    simp only [state, id]

theorem find (same : SameClients s t) (fd : Int) :
    clientFind t.clients fd = clientFind s.clients fd :=
  ClientList.search_congr fun i => by
    have state : (t.clients.list i).state = (s.clients.list i).state := same.state i
    have fd : (t.clients.list i).fd = (s.clients.list i).fd := same.fd i
    simp only [state, fd]

end SameClients

/-- A queue with one more packet. -/
def Queue.pushed (q : Queue Item) (f : Item → Item) : Queue Item :=
  ({ q with head := (q.head + 1) &&& (q.len - 1), count := q.count + 1 } : Queue Item).fill q.head f

/-- The state after one successful `send`. -/
def Server.pushed (s : Server) (r : Slot) (f : Packet → Packet) : Server :=
  { s.modify r fun c => { c with msgQueue := c.msgQueue.pushed f } with
    sent := s.sent ++ [⟨r, s.sessions⟩] }

theorem Server.send_eq (s : Server) (r : Slot) (f : Packet → Packet) :
    s.send r f =
      if (s.client r).msgQueue.full then .error (.packet, s) else .ok (s.pushed r f) := by
  by_cases full : (s.client r).msgQueue.full = true
  · simp [send, enqueue, Queue.enqueue, full, bind, Except.bind]
  · have taken : (s.client r).msgQueue.enqueue = some ((s.client r).msgQueue.head,
        { (s.client r).msgQueue with
          head := ((s.client r).msgQueue.head + 1) &&& ((s.client r).msgQueue.len - 1)
          count := (s.client r).msgQueue.count + 1 }) := if_neg full
    simp only [send, enqueue, taken, if_neg full]
    simp [bind, Except.bind, pure, Except.pure, pushed, fill, modify, ClientList.modify,
      Queue.pushed, client]

theorem Server.pushed_same (s : Server) (r : Slot) (f : Packet → Packet) :
    SameClients s (s.pushed r f) :=
  s.clients.modify_field r (fun c => { c with msgQueue := c.msgQueue.pushed f }) Client.bare
    fun _ => rfl

@[simp] theorem Server.pushed_db (s : Server) (r : Slot) (f : Packet → Packet) :
    (s.pushed r f).db = s.db := rfl

/-- Forget what a computation did to the database, also where it failed. -/
def withDb (db : Database) : Run Server → Run Server
  | .ok t => .ok { t with db }
  | .error (fault, t) => .error (fault, { t with db })

/-- Send the packets of a plan one by one. -/
def Server.sendAll (s : Server) : Plan → Run Server
  | [] => .ok s
  | (r, f) :: rest => do
    let s ← s.send r f
    s.sendAll rest

@[simp] theorem Server.sendAll_nil (s : Server) : s.sendAll [] = .ok s := rfl

theorem Server.sendAll_cons (s : Server) (r : Slot) (f : Packet → Packet) (rest : Plan) :
    s.sendAll ((r, f) :: rest) =
      if (s.client r).msgQueue.full then .error (.packet, s) else (s.pushed r f).sendAll rest := by
  rw [sendAll, send_eq]
  split <;> rfl

theorem Server.sendAll_append (s : Server) (first second : Plan) :
    s.sendAll (first ++ second) = (s.sendAll first).bind fun t => t.sendAll second := by
  induction first generalizing s with
  | nil => rfl
  | cons head rest ih =>
    obtain ⟨r, f⟩ := head
    rw [List.cons_append, sendAll_cons, sendAll_cons]
    split
    · rfl
    · exact ih _

theorem Server.sendAll_withDb (s : Server) (db : Database) (plan : Plan) :
    Server.sendAll { s with db } plan = withDb db (s.sendAll plan) := by
  induction plan generalizing s with
  | nil => rfl
  | cons head rest ih =>
    obtain ⟨r, f⟩ := head
    rw [sendAll_cons, sendAll_cons]
    by_cases full : (s.client r).msgQueue.full = true
    · rw [if_pos full, if_pos (show (Server.client { s with db } r).msgQueue.full = true from full)]
      rfl
    · rw [if_neg full,
        if_neg (show ¬ (Server.client { s with db } r).msgQueue.full = true from full)]
      exact ih (s.pushed r f)

/-- The state a computation ends or fails in. -/
def Run.state : Run Server → Server
  | .ok t => t
  | .error (_, t) => t

/-- `plan` fits: no client gets more packets than its queue has free slots. -/
def Server.Fits (s : Server) (plan : Plan) : Prop :=
  ∀ r, (s.client r).msgQueue.count + (plan.map Prod.fst).count r ≤ (s.client r).msgQueue.len

/-- Every queue holds at most as many packets as it has slots. -/
def Server.Bounded (s : Server) : Prop :=
  ∀ i, (s.client i).msgQueue.count ≤ (s.client i).msgQueue.len

theorem Server.pushed_count (s : Server) (r i : Slot) (f : Packet → Packet) :
    ((s.pushed r f).client i).msgQueue.count =
      (s.client i).msgQueue.count + if i = r then 1 else 0 := by
  by_cases same : i = r
  · subst same
    simp [pushed, modify, client, ClientList.modify_self, Queue.pushed, Queue.fill]
  · simp [pushed, modify, client, ClientList.modify_of_ne _ _ same, same]

theorem Server.pushed_len (s : Server) (r i : Slot) (f : Packet → Packet) :
    ((s.pushed r f).client i).msgQueue.len = (s.client i).msgQueue.len :=
  s.clients.modify_field r (fun c => { c with msgQueue := c.msgQueue.pushed f })
    (fun c => c.msgQueue.len) (fun _ => rfl) i

theorem Server.pushed_fits (s : Server) (r : Slot) (f : Packet → Packet) (rest : Plan) :
    (s.pushed r f).Fits rest ↔ s.Fits ((r, f) :: rest) := by
  unfold Fits
  refine forall_congr' fun i => ?_
  rw [pushed_count, pushed_len, List.map_cons, List.count_cons]
  by_cases same : i = r
  · subst same
    simp only [if_true, beq_self_eq_true]
    omega
  · have other : (r == i) = false := by simpa using Ne.symm same
    simp [same, other]

theorem Server.pushed_bounded {s : Server} (bounded : s.Bounded)
    (room : (s.client r).msgQueue.full ≠ true) : (s.pushed r f).Bounded := by
  intro i
  have here := bounded i
  rw [pushed_count, pushed_len]
  by_cases same : i = r
  · subst same
    have space : (s.client i).msgQueue.count ≠ (s.client i).msgQueue.len := by
      simpa [Queue.full] using room
    simp only [if_true]
    omega
  · simpa [same] using here

/-- Sending a plan ends, and it does so without a fault exactly when the plan
fits; the only fault is a full queue. -/
theorem Server.sendAll_cases {s : Server} (bounded : s.Bounded) (plan : Plan) :
    (s.Fits plan ∧ ∃ t, s.sendAll plan = .ok t) ∨
      (¬ s.Fits plan ∧ ∃ t, s.sendAll plan = .error (.packet, t)) := by
  induction plan generalizing s with
  | nil => exact .inl ⟨fun i => by simpa using bounded i, s, rfl⟩
  | cons head rest ih =>
    obtain ⟨r, f⟩ := head
    rw [sendAll_cons]
    split
    · rename_i full
      refine .inr ⟨fun fits => ?_, s, rfl⟩
      have here := fits r
      have count : (s.client r).msgQueue.count = (s.client r).msgQueue.len := by
        simpa [Queue.full] using full
      rw [List.map_cons, List.count_cons] at here
      simp at here
      omega
    · rename_i room
      rw [← pushed_fits]
      exact ih (pushed_bounded bounded room)

theorem Server.sendAll_same (s : Server) (plan : Plan) :
    SameClients s (Run.state (s.sendAll plan)) := by
  induction plan generalizing s with
  | nil => exact .refl s
  | cons head rest ih =>
    obtain ⟨r, f⟩ := head
    rw [sendAll_cons]
    split
    · exact .refl s
    · exact (s.pushed_same r f).trans (ih _)

theorem Server.sendAll_db (s : Server) (plan : Plan) : (Run.state (s.sendAll plan)).db = s.db := by
  induction plan generalizing s with
  | nil => rfl
  | cons head rest ih =>
    obtain ⟨r, f⟩ := head
    rw [sendAll_cons]
    split
    · rfl
    · exact ih _

/-- Sending commits no transfer and handles no packet. -/
theorem Server.sendAll_logs (s : Server) (plan : Plan) :
    (Run.state (s.sendAll plan)).committed = s.committed ∧
      (Run.state (s.sendAll plan)).calls = s.calls := by
  induction plan generalizing s with
  | nil => exact ⟨rfl, rfl⟩
  | cons head rest ih =>
    obtain ⟨r, f⟩ := head
    rw [sendAll_cons]
    split
    · exact ⟨rfl, rfl⟩
    · exact ih _

/-- What no single packet changes a plan does not change. -/
theorem Server.sendAll_kept {s t : Server} {plan : Plan} (get : Server → Value)
    (blind : ∀ s i f, get (s.pushed i f) = get s) (sent : s.sendAll plan = .ok t) :
    get t = get s := by
  induction plan generalizing s with
  | nil =>
    cases sent
    rfl
  | cons head rest ih =>
    obtain ⟨i, f⟩ := head
    rw [sendAll_cons] at sent
    split at sent
    · cases sent
    · exact (ih sent).trans (blind s i f)

theorem Server.sendAll_count {s t : Server} {plan : Plan} (sent : s.sendAll plan = .ok t)
    (i : Slot) : (t.client i).msgQueue.count =
      (s.client i).msgQueue.count + (plan.map Prod.fst).count i := by
  induction plan generalizing s with
  | nil =>
    cases sent
    simp
  | cons head rest ih =>
    obtain ⟨r, f⟩ := head
    rw [sendAll_cons] at sent
    split at sent
    · cases sent
    · rw [ih sent, pushed_count, List.map_cons, List.count_cons]
      by_cases same : i = r
      · subst same
        simp only [if_true, beq_self_eq_true]
        omega
      · have other : (r == i) = false := by simpa using Ne.symm same
        simp [same, other]

theorem Server.sendAll_fault {s t : Server} {plan : Plan} {fault : Fault}
    (failed : s.sendAll plan = .error (fault, t)) : fault = .packet := by
  induction plan generalizing s with
  | nil => cases failed
  | cons head rest ih =>
    obtain ⟨r, f⟩ := head
    rw [sendAll_cons] at failed
    split at failed
    · cases failed
      rfl
    · exact ih failed

/-- The log grows by entries for the first receivers of a plan, all of them when
it does not fail, each with the sessions of the starting state. -/
theorem Server.sendAll_sent (s : Server) (plan : Plan) :
    ∃ receivers, (Run.state (s.sendAll plan)).sent = s.sent ++ receivers.map (⟨·, s.sessions⟩) ∧
      receivers <+: plan.map Prod.fst ∧
      ∀ t, s.sendAll plan = .ok t → receivers = plan.map Prod.fst := by
  induction plan generalizing s with
  | nil => exact ⟨[], by simp [Run.state], by simp, by simp⟩
  | cons head rest ih =>
    obtain ⟨r, f⟩ := head
    rw [sendAll_cons]
    split
    · exact ⟨[], by simp [Run.state], by simp, by simp⟩
    · obtain ⟨receivers, grown, front, whole⟩ := ih (s.pushed r f)
      have kept : (s.pushed r f).sessions = s.sessions := (s.pushed_same r f).sessions
      refine ⟨r :: receivers, ?_, ?_, ?_⟩
      · rw [grown, kept]
        simp [pushed, modify]
      · simpa using front
      · intro t sent
        simpa using whole t sent

/-- A computation from `s` sends `plan` and, unless a queue is full, leaves the
database `db`. At a full queue only the receivers of the plan are told. -/
structure Sends (s : Server) (plan : Plan) (db : Database) (r : Run Server) : Prop where
  ok : ∀ t, r = .ok t → ∃ u, s.sendAll plan = .ok u ∧ t = { u with db }
  error : ∀ fault t, r = .error (fault, t) → ∃ tried u, tried.map Prod.fst = plan.map Prod.fst ∧
    s.sendAll tried = .error (fault, u) ∧ t.sent = u.sent ∧ t.committed = u.committed ∧
    t.calls = u.calls ∧ SameClients s t

namespace Sends

variable {s t : Server} {plan first second : Plan} {db last : Database} {r : Run Server}

theorem done (s : Server) (db : Database) : Sends s [] db (.ok { s with db }) where
  ok := fun t same => by
    cases same
    exact ⟨s, rfl, rfl⟩
  error := nofun

theorem sendAll (s : Server) (plan : Plan) : Sends s plan s.db (s.sendAll plan) where
  ok := fun t sent => by
    have left := s.sendAll_db plan
    rw [sent] at left
    exact ⟨t, sent, by rw [← left]; rfl⟩
  error := fun fault t failed => by
    have same := s.sendAll_same plan
    rw [failed] at same
    exact ⟨plan, t, rfl, failed, rfl, rfl, rfl, same⟩

theorem send (s : Server) (i : Slot) (f : Packet → Packet) :
    Sends s [(i, f)] s.db (s.send i f) := by
  rw [Server.send_eq]
  split
  · rename_i full
    refine ⟨nofun, fun fault t same => ?_⟩
    cases same
    exact ⟨[(i, f)], s, rfl, by rw [Server.sendAll_cons, if_pos full], rfl, rfl, rfl, .refl s⟩
  · rename_i room
    refine ⟨fun t same => ?_, nofun⟩
    cases same
    exact ⟨s.pushed i f, by rw [Server.sendAll_cons, if_neg room, Server.sendAll_nil], rfl⟩

theorem setDb (sends : Sends { s with db } plan last r) : Sends s plan last r where
  ok := fun t same => by
    obtain ⟨u, sent, equal⟩ := sends.ok t same
    rw [Server.sendAll_withDb] at sent
    cases reached : s.sendAll plan with
    | error failed => simp [reached, withDb] at sent
    | ok v =>
      rw [reached] at sent
      cases sent
      exact ⟨v, rfl, equal⟩
  error := fun fault t same => by
    obtain ⟨tried, u, receivers, sent, rest⟩ := sends.error fault t same
    rw [Server.sendAll_withDb] at sent
    cases reached : s.sendAll tried with
    | ok v => simp [reached, withDb] at sent
    | error failed =>
      rw [reached] at sent
      cases sent
      exact ⟨tried, failed.2, receivers, reached, rest⟩

theorem same_ok (sends : Sends s plan db (.ok t)) : SameClients s t := by
  obtain ⟨u, sent, rfl⟩ := sends.ok t rfl
  have kept := s.sendAll_same plan
  rw [sent] at kept
  exact kept

/-- Sending changes no client but for its queue. -/
theorem same (sends : Sends s plan db r) : SameClients s (Run.state r) := by
  cases r with
  | ok t => exact sends.same_ok
  | error failed =>
    obtain ⟨tried, u, -, -, -, -, -, clients⟩ := sends.error failed.1 failed.2 rfl
    exact clients

theorem ends (sends : Sends s plan db r) :
    Runs.Ends (SameClients s) (fun failed => SameClients s failed.2) r := by
  have same := sends.same
  cases r <;> exact same

theorem db_ok (sends : Sends s plan db (.ok t)) : t.db = db := by
  obtain ⟨u, -, rfl⟩ := sends.ok t rfl
  rfl

theorem logs (sends : Sends s plan db r) :
    (Run.state r).committed = s.committed ∧ (Run.state r).calls = s.calls := by
  cases r with
  | ok t =>
    obtain ⟨u, sent, rfl⟩ := sends.ok t rfl
    have kept := s.sendAll_logs plan
    rw [sent] at kept
    exact kept
  | error failed =>
    obtain ⟨tried, u, -, sent, -, committed, calls, -⟩ := sends.error failed.1 failed.2 rfl
    have kept := s.sendAll_logs tried
    rw [sent] at kept
    exact ⟨committed.trans kept.1, calls.trans kept.2⟩

theorem committed (sends : Sends s plan db r) : (Run.state r).committed = s.committed :=
  sends.logs.1

theorem calls (sends : Sends s plan db r) : (Run.state r).calls = s.calls :=
  sends.logs.2

theorem bind {next : Server → Run Server} (sends : Sends s first db r)
    (after : ∀ t, SameClients s t → t.db = db → Sends t second last (next t)) :
    Sends s (first ++ second) last (r.bind next) := by
  cases r with
  | error failed =>
    refine ⟨nofun, fun fault t same => ?_⟩
    cases same
    obtain ⟨tried, u, receivers, sent, rest⟩ := sends.error fault t rfl
    refine ⟨tried ++ second, u, by simp [receivers], ?_, rest⟩
    rw [Server.sendAll_append, sent]
    rfl
  | ok t =>
    obtain ⟨u, sent, equal⟩ := sends.ok t rfl
    have later : Sends { u with db } second last (next t) := by
      rw [← equal]
      exact after t sends.same_ok sends.db_ok
    replace later := later.setDb
    have whole (plan : Plan) : s.sendAll (first ++ plan) = u.sendAll plan := by
      rw [Server.sendAll_append, sent]
      rfl
    refine ⟨fun v same => ?_, fun fault v same => ?_⟩
    · rw [whole]
      exact later.ok v same
    · obtain ⟨tried, w, receivers, failed, log, committed, calls, clients⟩ := later.error fault v same
      refine ⟨first ++ tried, w, by simp [receivers], ?_, log, committed, calls, ?_⟩
      · rw [whole, failed]
      · have front := s.sendAll_same first
        rw [sent] at front
        exact front.trans clients

/-- A last change of the database. -/
theorem thenDb {change : Server → Database} (sends : Sends s plan db r)
    (same : ∀ t, SameClients s t → t.db = db → change t = last) :
    Sends s plan last (r.bind fun t => .ok { t with db := change t }) := by
  have composed : Sends s (plan ++ []) last (r.bind fun t => .ok { t with db := change t }) :=
    sends.bind fun t clients left => by
      rw [same t clients left]
      exact done t last
  simpa using composed

/-- The log comes from sending to the receivers of the plan. -/
theorem log (sends : Sends s plan db r) : ∃ tried, tried.map Prod.fst = plan.map Prod.fst ∧
    (Run.state r).sent = (Run.state (s.sendAll tried)).sent := by
  cases r with
  | ok t =>
    obtain ⟨u, sent, rfl⟩ := sends.ok t rfl
    refine ⟨plan, rfl, ?_⟩
    rw [sent]
    rfl
  | error failed =>
    obtain ⟨tried, u, receivers, sent, log, -⟩ := sends.error failed.1 failed.2 rfl
    refine ⟨tried, receivers, ?_⟩
    rw [sent]
    exact log

/-- What a computation that sends `plan` adds to the log. -/
theorem sent (sends : Sends s plan db r) :
    ∃ receivers, (Run.state r).sent = s.sent ++ receivers.map (⟨·, s.sessions⟩) ∧
      receivers <+: plan.map Prod.fst := by
  obtain ⟨tried, same, log⟩ := sends.log
  obtain ⟨receivers, grown, front, -⟩ := s.sendAll_sent tried
  exact ⟨receivers, log.trans grown, same ▸ front⟩

/-- The queue of the first receiver alone decides whether anything is sent. -/
theorem quiet_iff (sends : Sends s plan db r) :
    (Run.state r).sent = s.sent ↔
      ∀ i ∈ (plan.map Prod.fst).head?, (s.client i).msgQueue.full = true := by
  obtain ⟨tried, same, log⟩ := sends.log
  rw [log, ← same]
  cases tried with
  | nil => simp [Run.state]
  | cons head rest =>
    obtain ⟨i, f⟩ := head
    rw [Server.sendAll_cons]
    by_cases full : (s.client i).msgQueue.full = true
    · simp [full, Run.state]
    · obtain ⟨receivers, grown, -⟩ := (s.pushed i f).sendAll_sent rest
      rw [if_neg full, grown]
      simp [full, Server.pushed]

/-- Sending fails for want of a queue slot only. -/
theorem fault (sends : Sends s plan db r) :
    Runs.Ends (fun _ => True) (fun failed => failed.1 = .packet) r := by
  cases r with
  | ok t => trivial
  | error failed =>
    obtain ⟨tried, u, -, sent, -⟩ := sends.error failed.1 failed.2 rfl
    exact Server.sendAll_fault sent

/-- Sending ends with the plan sent, or at a full queue. -/
theorem cases (sends : Sends s plan db r) (bounded : s.Bounded) :
    (s.Fits plan ∧ ∃ t, r = .ok t) ∨ (¬ s.Fits plan ∧ ∃ t, r = .error (.packet, t)) := by
  cases r with
  | ok t =>
    obtain ⟨u, sent, -⟩ := sends.ok t rfl
    rcases Server.sendAll_cases bounded plan with ⟨fits, -⟩ | ⟨-, v, failed⟩
    · exact .inl ⟨fits, t, rfl⟩
    · rw [sent] at failed
      cases failed
  | error failed =>
    obtain ⟨fault, t⟩ := failed
    obtain ⟨tried, u, receivers, sent, -⟩ := sends.error fault t rfl
    rcases Server.sendAll_cases bounded tried with ⟨-, v, done⟩ | ⟨large, v, full⟩
    · rw [sent] at done
      cases done
    · rw [sent] at full
      cases full
      refine .inr ⟨?_, t, rfl⟩
      rwa [Server.Fits, ← receivers]

/-- A plan that sends nothing is carried out. -/
theorem nothing (sends : Sends s [] db r) : r = .ok { s with db } := by
  cases r with
  | ok t =>
    obtain ⟨u, sent, rfl⟩ := sends.ok t rfl
    cases sent
    rfl
  | error failed =>
    obtain ⟨tried, u, receivers, sent, -⟩ := sends.error failed.1 failed.2 rfl
    rw [List.map_eq_nil_iff.mp receivers] at sent
    cases sent

/-- One packet for a queue with room is sent. -/
theorem single {f : Packet → Packet} (sends : Sends s [(i, f)] db r)
    (room : (s.client i).msgQueue.full ≠ true) : r = .ok { s.pushed i f with db } := by
  cases r with
  | ok t =>
    obtain ⟨u, sent, rfl⟩ := sends.ok t rfl
    rw [Server.sendAll_cons, if_neg room, Server.sendAll_nil] at sent
    cases sent
    rfl
  | error failed =>
    obtain ⟨tried, u, receivers, sent, -⟩ := sends.error failed.1 failed.2 rfl
    obtain ⟨⟨j, g⟩, rfl, same⟩ := List.map_eq_singleton_iff.mp receivers
    obtain rfl : j = i := same
    rw [Server.sendAll_cons, if_neg room, Server.sendAll_nil] at sent
    cases sent

/-- Every queue grows by the packets the plan has for it. -/
theorem count (sends : Sends s plan db (.ok t)) (i : Slot) :
    (t.client i).msgQueue.count =
      (s.client i).msgQueue.count + (plan.map Prod.fst).count i := by
  obtain ⟨u, sent, rfl⟩ := sends.ok t rfl
  exact Server.sendAll_count sent i

end Sends

/-- The plan and database of a loop whose body works on one element. -/
def foldPlan (body : Database → Item → Plan × Database) :
    Database → List Item → Plan × Database
  | db, [] => ([], db)
  | db, x :: rest =>
    let head := body db x
    let tail := foldPlan body head.2 rest
    (head.1 ++ tail.1, tail.2)

theorem foldPlan_const (plan : Item → Plan) (db : Database) (items : List Item) :
    foldPlan (fun db x => (plan x, db)) db items = (items.flatMap plan, db) := by
  induction items with
  | nil => rfl
  | cons x rest ih => simp [foldPlan, ih]

theorem Sends.foldlM {loop : Server → Item → Run Server}
    {body : Database → Item → Plan × Database} (s : Server) (items : List Item)
    (each : ∀ t x, SameClients s t → Sends t (body t.db x).1 (body t.db x).2 (loop t x)) :
    Sends s (foldPlan body s.db items).1 (foldPlan body s.db items).2 (items.foldlM loop s) := by
  induction items generalizing s with
  | nil => exact .done s s.db
  | cons x rest ih =>
    rw [List.foldlM_cons]
    refine (each s x (.refl s)).bind fun t same left => ?_
    rw [foldPlan, ← left]
    exact ih t fun u y later => each u y (same.trans later)

theorem Sends.foldlM_const {loop : Server → Item → Run Server} {plan : Item → Plan}
    (s : Server) (items : List Item)
    (each : ∀ t x, SameClients s t → Sends t (plan x) t.db (loop t x)) :
    Sends s (items.flatMap plan) s.db (items.foldlM loop s) := by
  have folded : Sends s (foldPlan (fun db x => (plan x, db)) s.db items).1
      (foldPlan (fun db x => (plan x, db)) s.db items).2 (items.foldlM loop s) :=
    Sends.foldlM s items each
  rwa [foldPlan_const] at folded

end Quickshare
