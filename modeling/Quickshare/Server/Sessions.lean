import Quickshare.Server.Contents
import Quickshare.Server.Rows
import Mathlib.Data.List.Nodup

/-! Sessions. Creating a session inserts a row and takes its rowid, joining one
selects the id of the row with the name; both give one id for one name, so
registered clients share an id exactly if their introductions named one session. -/

namespace Quickshare

open Runs Bytes

/-- The session an introduction names: what precedes the first NUL, at most 15 bytes. -/
def Packet.sessionName (p : Packet) : List UInt8 := cString (p.read 24 (sessionIdMaxLen - 1))

/-- The client whose introduction this event delivers, with the packet. -/
def Server.introducing (s : Server) (e : Event) : Option (Slot × Packet) :=
  match s.delivers e with
  | none => none
  | some (c, t) =>
    let p := (t.client c).decryptBuf.packet
    if p.type? = some .clientIntro then some (c, p) else none

/-- The type of the first packet queued for `c` between `s` and `t`. -/
def Server.answer (s : Server) (c : Slot) (t : Server) : Option PacketType :=
  (t.client c).msgQueue.contents[(s.client c).msgQueue.count]?.bind Packet.type?

/-- For every client the session its last accepted introduction named. -/
abbrev Naming := Slot → List UInt8

def Server.renamed (s : Server) (e : Event) (t : Server) (names : Naming) : Naming :=
  match s.introducing e with
  | none => names
  | some (c, p) =>
    if s.answer c t = some .serverOk then Function.update names c p.sessionName else names

/-- One event, with the names the introductions gave. -/
def namedStep (state : Server × Naming) (e : Event) : Except (Fault × Server) (Server × Naming) := do
  let t ← step state.1 e
  return (t, state.1.renamed e t state.2)

/-- Registered clients share a session exactly if they named the same one. -/
def sameSessions (state : Server × Naming) : Prop :=
  ∀ i j, (state.1.client i).state = .complete → (state.1.client j).state = .complete →
    ((state.1.client i).sessionId = (state.1.client j).sessionId ↔ state.2 i = state.2 j)

/-- An introduction that is not answered with `P_SERVER_OK` changes neither its
client nor the table of sessions. -/
def refusalsHarmless (s : Server) (e : Event) : Prop :=
  ∀ c p t, s.introducing e = some (c, p) → step s e = .ok t → s.answer c t ≠ some .serverOk →
    (t.client c).state = (s.client c).state ∧ (t.client c).sessionId = (s.client c).sessionId ∧
      (t.client c).name = (s.client c).name ∧ t.db.tables.sessions = s.db.tables.sessions

/-! The table of sessions -/

/-- Names are unique, and so are the ids, which are positive. -/
structure SessionsValid (rows : List SessionRow) : Prop where
  names : (rows.map SessionRow.name).Nodup
  ids : (rows.map SessionRow.id).Nodup
  positive : ∀ row ∈ rows, 0 < row.id

section Table

variable {db : Database} {name : List UInt8} {rows : List SessionRow} {first second : SessionRow}

theorem SessionsValid.name_iff (valid : SessionsValid rows) (left : first ∈ rows)
    (right : second ∈ rows) : first.id = second.id ↔ first.name = second.name := by
  constructor
  · intro same
    rw [List.inj_on_of_nodup_map valid.ids left right same]
  · intro same
    rw [List.inj_on_of_nodup_map valid.names left right same]

/-- The rowid of a new session is positive and in no other row. -/
theorem SessionsValid.fresh (valid : SessionsValid rows) {id : SessionId}
    (next : nextRowid (rows.map SessionRow.id) = some id) :
    0 < id ∧ id ∉ rows.map SessionRow.id := by
  rcases nextRowid_some next with ⟨empty, rfl⟩ | ⟨last, listed, greatest, succ⟩
  · refine ⟨by decide, ?_⟩
    rw [empty]
    exact List.not_mem_nil
  · obtain ⟨row, member, rfl⟩ := List.mem_map.mp listed
    have positive := valid.positive row member
    rw [Int64.lt_iff_toInt_lt] at positive
    refine ⟨?_, fun old => ?_⟩
    · rw [Int64.lt_iff_toInt_lt]
      rw [Int64.toInt_zero] at positive ⊢
      omega
    · have below := greatest id old
      rw [Int64.le_iff_toInt_le] at below
      omega

theorem SessionsValid.insert (valid : SessionsValid rows) {id : SessionId} (unused : name ∉ rows.map SessionRow.name)
    (next : nextRowid (rows.map SessionRow.id) = some id) :
    SessionsValid (rows ++ [⟨name, id⟩]) := by
  obtain ⟨positive, fresh⟩ := valid.fresh next
  refine ⟨?_, ?_, fun row member => ?_⟩
  · have distinct := valid.names.concat unused
    simpa using distinct
  · have distinct := valid.ids.concat fresh
    simpa using distinct
  · rcases List.mem_append.mp member with old | new
    · exact valid.positive row old
    · rw [List.mem_singleton.mp new]
      exact positive

/-- A statement that leaves the sessions alone when it works leaves them alone. -/
theorem Database.exec_sessions (db : Database) (change : Tables → Option Tables)
    (kept : ∀ tables, change db.tables = some tables → tables.sessions = db.tables.sessions) :
    (db.exec change).2.tables.sessions = db.tables.sessions := by
  cases outcome : db.outcome db.executed with
  | some stop => simp [exec, tick, outcome]
  | none =>
    cases changed : change db.tables with
    | none => simp [exec, tick, outcome, changed]
    | some tables => simpa [exec, tick, outcome, changed] using kept tables changed

/-- What looking up or creating the session `name` gives: 0 and the table as it
was, or the id of the row with the name. -/
structure Opens (db : Database) (name : List UInt8) (result : SessionId × Database) : Prop where
  valid : SessionsValid result.2.tables.sessions
  kept : ∀ row ∈ db.tables.sessions, row ∈ result.2.tables.sessions
  refused : result.1 = 0 → result.2.tables.sessions = db.tables.sessions
  opened : result.1 ≠ 0 → ⟨name, result.1⟩ ∈ result.2.tables.sessions

theorem Opens.unchanged {result : SessionId × Database} (valid : SessionsValid db.tables.sessions)
    (same : result.2.tables = db.tables)
    (listed : result.1 ≠ 0 → ⟨name, result.1⟩ ∈ db.tables.sessions) : Opens db name result := by
  refine ⟨?_, fun row member => ?_, fun _ => ?_, fun found => ?_⟩ <;> rw [same]
  · exact valid
  · exact member
  · exact listed found

theorem dbGetSession_opens (valid : SessionsValid db.tables.sessions) (name : List UInt8) :
    Opens db name (dbGetSession db name) := by
  refine .unchanged valid (by simp) fun found => ?_
  unfold dbGetSession at found ⊢
  split at found
  · rename_i row rest next same
    have read : row ∈ (db.select fun tables => tables.sessions.filter (·.name = name)).1 := by
      rw [same]
      exact List.mem_cons_self ..
    obtain ⟨held, named⟩ := List.mem_filter.mp (db.mem_select _ read)
    obtain rfl : row.name = name := by simpa using named
    exact held
  · exact absurd rfl found

theorem dbCreateSession_opens (valid : SessionsValid db.tables.sessions) (name : List UInt8) :
    Opens db name (dbCreateSession db name) := by
  unfold dbCreateSession
  cases next : nextRowid (db.tables.sessions.map SessionRow.id) with
  | none =>
    refine .unchanged valid ?_ fun found => absurd rfl found
    cases outcome : db.outcome db.executed <;> simp [Database.exec, Database.tick, outcome]
  | some id =>
    dsimp only
    by_cases used : name ∈ db.tables.sessions.map SessionRow.name
    · -- the name is taken: the constraint fails and nothing is inserted
      refine .unchanged valid ?_ fun found => ?_ <;>
        cases outcome : db.outcome db.executed <;>
          simp_all [Database.exec, Database.tick]
    · cases outcome : db.outcome db.executed with
      | some stop =>
        refine .unchanged valid ?_ fun found => ?_ <;>
          simp_all [Database.exec, Database.tick]
      | none =>
        have inserted : db.exec (fun tables =>
            if name ∈ tables.sessions.map SessionRow.name then none
            else some { tables with sessions := tables.sessions ++ [⟨name, id⟩] }) =
          (true, { db.tick.2 with
            tables := { db.tables with sessions := db.tables.sessions ++ [⟨name, id⟩] } }) := by
          simp only [Database.exec, Database.tick, outcome, if_neg used]
        rw [inserted]
        refine ⟨valid.insert used next, fun row member => ?_, fun zero => ?_, fun _ => ?_⟩
        · exact List.mem_append_left _ member
        · have positive := (valid.fresh next).1
          rw [show id = 0 from zero] at positive
          exact absurd positive (by decide)
        · exact List.mem_append_right _ (List.mem_singleton_self _)

end Table

/-! Everything but an introduction -/

section Kept

variable {s t u : Server} {c i : Slot} {plan : Plan} {db next : Database} {r : Run Server}

/-- The table of sessions stays and nobody is registered. -/
structure Server.KeepsSessions (s t : Server) : Prop where
  table : t.db.tables.sessions = s.db.tables.sessions
  complete : ∀ i, (t.client i).state = .complete →
    (s.client i).state = .complete ∧ (t.client i).sessionId = (s.client i).sessionId

namespace Server.KeepsSessions

theorem refl (s : Server) : s.KeepsSessions s := ⟨rfl, fun _ complete => ⟨complete, rfl⟩⟩

theorem trans (first : s.KeepsSessions t) (second : t.KeepsSessions u) : s.KeepsSessions u where
  table := second.table.trans first.table
  complete := fun i complete => by
    obtain ⟨before, session⟩ := second.complete i complete
    obtain ⟨start, same⟩ := first.complete i before
    exact ⟨start, session.trans same⟩

theorem of_same (same : SameClients s t) (table : t.db.tables.sessions = s.db.tables.sessions) :
    s.KeepsSessions t where
  table := table
  complete := fun i complete => ⟨(same.state i).symm.trans complete, same.sessionId i⟩

theorem modify (s : Server) (i : Slot) (f : Client → Client)
    (kept : (f (s.client i)).state = .complete →
      (s.client i).state = .complete ∧ (f (s.client i)).sessionId = (s.client i).sessionId) :
    s.KeepsSessions (s.modify i f) where
  table := rfl
  complete := fun j => by
    by_cases here : j = i
    · subst here
      rw [client_modify_self]
      exact kept
    · rw [client_modify_of_ne _ _ here]
      exact fun complete => ⟨complete, rfl⟩

theorem closed (s : Server) (fd : Int) : s.KeepsSessions (s.closed fd) where
  table := rfl
  complete := fun i complete => by
    by_cases found : clientFind s.clients fd = some i
    · simp [Server.client, Server.closed, clientClose_self found, Client.freed] at complete
    · simpa [Server.client, Server.closed, clientClose_of_ne found] using complete

end Server.KeepsSessions

theorem Sends.keepsSessions (sends : Sends s plan db r)
    (table : db.tables.sessions = s.db.tables.sessions) :
    Ends s.KeepsSessions (fun _ => True) r := by
  cases r with
  | error failed => trivial
  | ok t =>
    refine .of_same sends.same_ok ?_
    rw [sends.db_ok]
    exact table

/-- Statements other than the inserts leave the table of sessions alone. -/
theorem sessions_rule :
    Database.Rule fun db next => next.tables.sessions = db.tables.sessions where
  refl := fun _ => rfl
  trans := fun _ _ _ first second => second.trans first
  ticked := fun _ => rfl
  cleanupTransfer := fun db tId => by
    unfold dbCleanupTransfer
    dsimp only
    rw [Database.exec_sessions _ _ (by simp), Database.exec_sessions _ _ (by simp)]
  clientDelete := fun db cId => Database.exec_sessions _ _ (by simp)
  clientAccept := fun db cId tId accept => Database.exec_sessions _ _ (by simp)
  begin := fun db => by rw [dbTransaction_begin_tables]
  commit := fun db => by rw [dbTransaction_commit_tables]

theorem checkRecipients_sessions (clients : ClientList) (client : Client) (tId : TransferId)
    (p : Packet) (indices : List Nat) (db : Database) :
    (checkRecipients clients client tId p db indices).2.tables.sessions = db.tables.sessions := by
  induction indices generalizing db with
  | nil => rfl
  | cons i rest ih =>
    rw [checkRecipients]
    split
    · rfl
    · split
      · rfl
      · rename_i r _
        have inserted : (dbCreateClient db tId (clients.list r).id).2.tables.sessions =
            db.tables.sessions := Database.exec_sessions _ _ (by simp)
        split
        · rfl
        · split <;> rename_i same <;> rw [same] at inserted
          · exact inserted
          · exact (ih _).trans inserted

theorem dbCreateTransfer_sessions (db : Database) (cId : ClientId) :
    (dbCreateTransfer db cId).2.tables.sessions = db.tables.sessions := by
  unfold dbCreateTransfer
  split
  · exact Database.exec_sessions _ _ (by simp)
  · rename_i id _
    have inserted : (db.exec fun tables => some { tables with
        transfers := tables.transfers ++ [⟨id, cId⟩] }).2.tables.sessions = db.tables.sessions :=
      Database.exec_sessions _ _ (by simp)
    split <;> (rename_i same; rw [same] at inserted; exact inserted)

theorem recordTransfer_sessions (clients : ClientList) (client : Client) (db : Database)
    (p : Packet) :
    (recordTransfer clients client db p).2.2.tables.sessions = db.tables.sessions := by
  have created := dbCreateTransfer_sessions db client.id
  have checked := checkRecipients_sessions clients client (dbCreateTransfer db client.id).1 p
    (List.range transferClientsMax) (dbCreateTransfer db client.id).2
  unfold recordTransfer
  dsimp only
  split
  · exact created
  · split <;> rename_i same <;> rw [same] at checked
    · exact checked.trans created
    · dsimp only at checked ⊢
      rw [dbTransaction_commit_tables, checked, created]

theorem packetTransfer_keepsSessions (s : Server) (c : Slot) :
    Ends s.KeepsSessions (fun _ => True) (packetTransfer s c) := by
  have begun_sessions : s.begun.2.tables.sessions = s.db.tables.sessions := by
    rw [Server.begun, dbTransaction_begin_tables]
  by_cases begun : s.begun.1 = true
  · by_cases recorded : (s.recorded c).1 = true
    · have granted := (packetTransfer_granted begun recorded).keepsSessions
        ((recordTransfer_sessions _ _ _ _).trans begun_sessions)
      exact granted.mono (fun t _ kept => ⟨kept.table, kept.complete⟩) fun _ _ => trivial
    · have refused : (s.recorded c).1 = false := by simpa using recorded
      obtain ⟨r, sends, same⟩ := packetTransfer_refused begun refused
      obtain ⟨tables, -⟩ := refused_tables begun refused
      rw [same]
      refine (sends.keepsSessions (congrArg Tables.sessions tables)).bind fun t kept => ?_
      generalize (debugTransfer (s.client c).decryptBuf.packet).inside = inside
      cases inside
      · trivial
      · exact kept
  · exact (packetTransfer_busy (by simpa using begun)).keepsSessions begun_sessions

theorem analizePacket_keepsSessions
    (other : (s.client c).decryptBuf.packet.type? ≠ some .clientIntro) :
    Ends s.KeepsSessions (fun _ => True) (analizePacket s c) := by
  unfold analizePacket
  split
  · rename_i intro
    exact absurd intro other
  · exact packetTransfer_keepsSessions s c
  · by_cases gone : s.creatorGone c
    · rw [packetReply_gone gone]
      trivial
    · exact (packetReply_sends gone).keepsSessions (sessions_rule.replyCreator s c)
  · exact (packetData_sends s c).keepsSessions (sessions_rule.dataPlan s c)
  · exact (packetComplete_sends s c).keepsSessions (sessions_rule.completePlan s c)
  · exact (packetCancel_sends s c).keepsSessions (sessions_rule.cancelPlan s c)
  · exact .refl s

theorem keepsSessions_rule (s : Server) : PacketRule s.KeepsSessions fun _ => True where
  fail := fun _ _ _ _ => trivial
  drain := fun t i d kept drains => kept.trans (.modify t i (fun _ => d) fun complete => by
    have rest := drains.rest
    rw [rest] at complete
    exact ⟨complete, by rw [rest]⟩)
  close := fun t fd deleted kept => by
    rw [closeClient_eq]
    split
    · dsimp only
      split
      · exact ⟨kept.table, kept.complete⟩
      · rename_i c _
        have left := (leaveSession_sends { t with epoll := t.epoll.erase fd } c).keepsSessions
          (sessions_rule.leavingPlan { t with epoll := t.epoll.erase fd } c)
        refine left.bind fun u gone => ?_
        exact (kept.trans ⟨gone.table, gone.complete⟩).trans (.closed u fd)
    · exact kept
  frame := fun t _ _ kept => ⟨kept.table, kept.complete⟩
  setFd := fun t i fd kept => kept.trans (.modify t i _ fun complete => ⟨complete, rfl⟩)
  secured := fun t i kept _ => kept.trans (.modify t i _ fun complete => by cases complete)
  received := fun t i buf kept => kept.trans (.modify t i _ fun complete => ⟨complete, rfl⟩)
  called := fun _ _ kept => ⟨kept.table, kept.complete⟩

/-- An event that delivers no introduction registers nobody. -/
theorem step_keepsSessions {e : Event} (other : s.introducing e = none) :
    Ends s.KeepsSessions (fun _ => True) (step s e) := by
  refine (keepsSessions_rule s).step (.refl s) e (fun conn i clients _ _ _ taken => ?_)
    fun c t delivers kept => ?_
  · obtain ⟨-, rfl⟩ := clientInit_some taken
    have fresh := Server.KeepsSessions.modify s i (clientConfigure conn.now conn.ssl)
      fun complete => by cases complete
    exact ⟨fresh.table, fresh.complete⟩
  · have plain : (t.client c).decryptBuf.packet.type? ≠ some .clientIntro := by
      intro intro
      simp [Server.introducing, delivers, intro] at other
    exact (analizePacket_keepsSessions plain).mono (fun u _ later => kept.trans later)
      fun _ _ => trivial

end Kept

/-! An introduction -/

section Introduction

variable {s t u : Server} {c i : Slot}

theorem Server.answer_of_contents {p : Packet} {more : List Packet} {type : PacketType}
    (added : (t.client c).msgQueue.contents = (s.client c).msgQueue.contents ++ p :: more)
    (typed : p.type? = some type) : s.answer c t = some type := by
  rw [Server.answer, added, List.getElem?_append_right (by simp)]
  simpa using typed

/-- The packet is refused: no client changes but for queues and the packet itself. -/
structure IntroRefused (s : Server) (c : Slot) (t : Server) : Prop where
  client : ∀ i, (t.client i).state = (s.client i).state ∧
    (t.client i).sessionId = (s.client i).sessionId ∧ (t.client i).name = (s.client i).name
  table : t.db.tables.sessions = s.db.tables.sessions
  answer : s.answer c t = some .serverDeny

/-- The packet registers `c` in the session `name`. -/
structure IntroAccepted (s : Server) (c : Slot) (name : List UInt8) (t : Server) : Prop where
  valid : SessionsValid t.db.tables.sessions
  kept : ∀ row ∈ s.db.tables.sessions, row ∈ t.db.tables.sessions
  self : ⟨name, (t.client c).sessionId⟩ ∈ t.db.tables.sessions
  other : ∀ i, i ≠ c → (t.client i).state = (s.client i).state ∧
    (t.client i).sessionId = (s.client i).sessionId
  answer : s.answer c t = some .serverOk

/-- The terminator ends the name after 15 bytes at the latest. -/
theorem terminateIntro_id (p : Packet) :
    cString (Packet.introId (terminateIntro p)) = p.sessionName := by
  have front : Mem.read (terminateIntro p) 24 15 = p.read 24 15 := by
    rw [terminateIntro, Mem.read_store_apart _ (.inl (by decide)),
      Mem.read_store_apart _ (.inr (by decide))]
  have last : Mem.read (terminateIntro p) 39 1 = [0] :=
    Mem.read_write (p.store 23 1 0) [0] (by decide)
  have whole : Packet.introId (terminateIntro p) = p.read 24 15 ++ [0] := by
    rw [Packet.introId, show sessionIdMaxLen = 15 + 1 from rfl, Mem.read_add, front, last]
  rw [whole, cString, Packet.sessionName, cString, List.takeWhile_append]
  split
  · rename_i full
    have whole := (List.takeWhile_sublist _).eq_of_length full
    simpa using whole.symm
  · rfl

theorem introduced_opens (valid : SessionsValid s.db.tables.sessions) (c : Slot) :
    Opens s.db (s.client c).decryptBuf.packet.sessionName (s.introduced c) := by
  unfold Server.introduced
  dsimp only
  rw [terminateIntro_id]
  split
  · exact dbGetSession_opens valid _
  · exact dbCreateSession_opens valid _

theorem Server.completed_client_self (s : Server) (c : Slot) (session : SessionId)
    (name : List UInt8) : (s.completed c session name).client c =
      { s.client c with state := .complete, sessionId := session, name } :=
  s.client_modify_self c _

/-- The same queues and registrations. -/
structure SameRecords (s t : Server) : Prop where
  queue : ∀ i, (t.client i).msgQueue = (s.client i).msgQueue
  state : ∀ i, (t.client i).state = (s.client i).state
  sessionId : ∀ i, (t.client i).sessionId = (s.client i).sessionId
  name : ∀ i, (t.client i).name = (s.client i).name

theorem terminated_records (s : Server) (c : Slot) (db : Database) :
    SameRecords s { s.terminated c with db } := by
  let f (client : Client) : Client := { client with
    decryptBuf := { client.decryptBuf with data := terminateIntro (s.client c).decryptBuf.packet } }
  constructor
  · exact s.clients.modify_field c f Client.msgQueue fun _ => rfl
  · exact s.clients.modify_field c f Client.state fun _ => rfl
  · exact s.clients.modify_field c f Client.sessionId fun _ => rfl
  · exact s.clients.modify_field c f Client.name fun _ => rfl

theorem SameRecords.queuesValid (before : SameRecords s t) (queues : s.QueuesValid) :
    t.QueuesValid := queues.of_queues before.queue

/-- An answer is the first packet added to the queue. -/
theorem SameRecords.answer {type : PacketType} (before : SameRecords s t)
    (queues : s.QueuesValid) (answered : serverResponse t c type = .ok u) :
    ∃ p, p.type? = some type ∧
      (u.client c).msgQueue.contents = (s.client c).msgQueue.contents ++ [p] := by
  have sends := serverResponse_sends t c type
  have added := sends.contents (before.queuesValid queues) answered c
  rw [before.queue] at added
  exact ⟨_, Packet.type?_packetHdr type 0 _, by simpa [Plan.toward, Queue.made] using added⟩

theorem SameRecords.refused (before : SameRecords s t) (queues : s.QueuesValid)
    (table : t.db.tables.sessions = s.db.tables.sessions) (c : Slot) :
    Ends (IntroRefused s c) (fun _ => True) (serverResponse t c .serverDeny) := by
  have sends := serverResponse_sends t c .serverDeny
  cases answered : serverResponse t c .serverDeny with
  | error failed => trivial
  | ok u =>
    rw [answered] at sends
    have same := sends.same_ok
    obtain ⟨p, typed, added⟩ := before.answer queues answered
    refine ⟨fun i => ⟨?_, ?_, ?_⟩, ?_, ?_⟩
    · exact (same.state i).trans (before.state i)
    · exact (same.sessionId i).trans (before.sessionId i)
    · exact (same.field i Client.name fun _ => rfl).trans (before.name i)
    · rw [sends.db_ok]
      exact table
    · exact Server.answer_of_contents added typed

theorem SameRecords.accepted {session : List UInt8} {opened : SessionId × Database}
    (before : SameRecords s t) (queues : s.QueuesValid) (opens : Opens s.db session opened)
    (table : t.db = opened.2) (nonzero : opened.1 ≠ 0) (c : Slot) (name : List UInt8) :
    Ends (IntroAccepted s c session) (fun _ => True) ((serverResponse t c .serverOk).bind fun u =>
      sendSessionUsers (u.completed c opened.1 name) c) := by
  have sends := serverResponse_sends t c .serverOk
  cases answered : serverResponse t c .serverOk with
  | error failed => trivial
  | ok u =>
    rw [answered] at sends
    have kept := sends.same_ok
    obtain ⟨p, typed, added⟩ := before.answer queues answered
    let v := u.completed c opened.1 name
    have told := sendSessionUsers_sends v c
    have ready : v.QueuesValid := by
      have valid := sends.queuesValid (before.queuesValid queues)
      exact Server.QueuesValid.of_queues valid fun i => u.completed_queue c i _ name
    show Ends _ _ (sendSessionUsers v c)
    cases ended : sendSessionUsers v c with
    | error failed => trivial
    | ok w =>
      have last := told.contents ready ended c
      rw [ended] at told
      have clients := told.same_ok
      have left : w.db = opened.2 := told.db_ok.trans (sends.db_ok.trans table)
      refine ⟨left ▸ opens.valid, left ▸ opens.kept, ?_, fun i other => ?_, ?_⟩
      · rw [left, clients.sessionId, u.completed_client_self]
        exact opens.opened nonzero
      · have beside : v.client i = u.client i := u.client_modify_of_ne _ other
        constructor
        · rw [clients.state, beside, kept.state, before.state]
        · rw [clients.sessionId, beside, kept.sessionId, before.sessionId]
      · have queue : (v.client c).msgQueue = (u.client c).msgQueue := u.completed_queue c c _ name
        rw [queue, added, List.append_assoc] at last
        exact Server.answer_of_contents last typed

theorem packetIntro_cases (queues : s.QueuesValid) (valid : SessionsValid s.db.tables.sessions)
    (c : Slot) : Ends (fun t => IntroRefused s c t ∨
      IntroAccepted s c (s.client c).decryptBuf.packet.sessionName t) (fun _ => True)
      (packetIntro s c) := by
  rw [packetIntro_eq]
  by_cases abnormal : (s.client c).state = .complete ∨
      (s.client c).decryptBuf.packet.introSession > 1
  · rw [if_pos abnormal]
    have unchanged : SameRecords s s := ⟨fun _ => rfl, fun _ => rfl, fun _ => rfl, fun _ => rfl⟩
    exact (unchanged.refused queues rfl c).mono (fun t _ refused => .inl refused) fun _ kept => kept
  · rw [if_neg abnormal]
    have opens := introduced_opens valid c
    have before := terminated_records s c (s.introduced c).2
    generalize (terminateIntro (s.client c).decryptBuf.packet).introName = name
    generalize s.introduced c = opened at opens before ⊢
    dsimp only
    by_cases zero : opened.1 = 0
    · rw [if_pos zero]
      exact (before.refused queues (opens.refused zero) c).mono (fun t _ refused => .inl refused)
        fun _ kept => kept
    · rw [if_neg zero]
      exact (before.accepted queues opens rfl zero c name).mono (fun t _ accepted => .inr accepted)
        fun _ kept => kept

theorem SameRecords.decryptBuf (s : Server) (c : Slot)
    (f : Buffer packetMaxSize → Buffer packetMaxSize) :
    SameRecords s (s.modify c fun client => { client with decryptBuf := f client.decryptBuf }) := by
  let g (client : Client) : Client := { client with decryptBuf := f client.decryptBuf }
  constructor
  · exact s.clients.modify_field c g Client.msgQueue fun _ => rfl
  · exact s.clients.modify_field c g Client.state fun _ => rfl
  · exact s.clients.modify_field c g Client.sessionId fun _ => rfl
  · exact s.clients.modify_field c g Client.name fun _ => rfl

variable {first last : Server}

theorem IntroRefused.records (refused : IntroRefused s c t) (before : SameRecords first s)
    (after : SameRecords t last) (start : s.db = first.db) (left : last.db = t.db) :
    IntroRefused first c last where
  client := fun i => by
    rw [after.state, after.sessionId, after.name, ← before.state, ← before.sessionId,
      ← before.name]
    exact refused.client i
  table := by
    rw [left, refused.table, start]
  answer := by
    rw [Server.answer, after.queue, ← before.queue]
    exact refused.answer

theorem IntroAccepted.records {name : List UInt8} (accepted : IntroAccepted s c name t)
    (before : SameRecords first s) (after : SameRecords t last) (start : s.db = first.db)
    (left : last.db = t.db) : IntroAccepted first c name last where
  valid := left ▸ accepted.valid
  kept := by
    rw [left, ← start]
    exact accepted.kept
  self := by
    rw [left, after.sessionId]
    exact accepted.self
  other := fun i other => by
    rw [after.state, after.sessionId, ← before.state, ← before.sessionId]
    exact accepted.other i other
  answer := by
    rw [Server.answer, after.queue, ← before.queue]
    exact accepted.answer

/-- An event that delivers an introduction refuses or accepts it. -/
theorem step_introducing {e : Event} {p : Packet} (queues : s.QueuesValid)
    (valid : SessionsValid s.db.tables.sessions) (introducing : s.introducing e = some (c, p)) :
    Ends (fun t => IntroRefused s c t ∨ IntroAccepted s c p.sessionName t) (fun _ => True)
      (step s e) := by
  unfold Server.introducing at introducing
  cases delivers : s.delivers e with
  | none => simp [delivers] at introducing
  | some delivered =>
    obtain ⟨i, u⟩ := delivered
    simp only [delivers] at introducing
    split at introducing
    · rename_i intro
      cases introducing
      obtain ⟨fd, chunk, buf, -, -, same⟩ := delivers_received delivers
      have before : SameRecords s u := by
        have received : SameRecords s (s.received c buf) := .decryptBuf s c fun _ => buf
        rw [same]
        exact ⟨received.queue, received.state, received.sessionId, received.name⟩
      have start : u.db = s.db := by
        rw [same]
        rfl
      have handled : analizePacket u c = packetIntro u c := by
        simp only [analizePacket, intro]
      rw [step_delivers delivers, handled]
      refine (packetIntro_cases (before.queuesValid queues) (start ▸ valid) c).bind
        fun t ended => ?_
      have after : SameRecords t (t.rewound c) :=
        .decryptBuf t c fun b => { b with len := 0, size := 0 }
      rcases ended with refused | accepted
      · exact .inl (refused.records before after start rfl)
      · exact .inr (accepted.records before after start rfl)
    · cases introducing

end Introduction

/-! Runs -/

/-- The table is in order and every registered client is in the session it named. -/
structure Named (state : Server × Naming) : Prop where
  queues : state.1.QueuesValid
  table : SessionsValid state.1.db.tables.sessions
  listed : ∀ i, (state.1.client i).state = .complete →
    ⟨state.2 i, (state.1.client i).sessionId⟩ ∈ state.1.db.tables.sessions

section Run

variable {s t : Server} {names : Naming} {e : Event}

theorem Named.sameSessions {state : Server × Naming} (named : Named state) :
    Quickshare.sameSessions state := by
  intro i j first second
  exact named.table.name_iff (named.listed i first) (named.listed j second)

theorem Named.step (named : Named (s, names)) (taken : Quickshare.step s e = .ok t) :
    Named (t, s.renamed e t names) := by
  have queues : t.QueuesValid := by
    have kept := named.queues.step e
    rwa [taken] at kept
  cases introducing : s.introducing e with
  | none =>
    have kept := step_keepsSessions introducing
    rw [taken] at kept
    refine ⟨queues, kept.table ▸ named.table, fun i complete => ?_⟩
    obtain ⟨before, session⟩ := kept.complete i complete
    have same : s.renamed e t names = names := by simp [Server.renamed, introducing]
    rw [same, kept.table]
    show ⟨names i, (t.client i).sessionId⟩ ∈ s.db.tables.sessions
    rw [session]
    exact named.listed i before
  | some intro =>
    obtain ⟨c, p⟩ := intro
    have ended := step_introducing named.queues named.table introducing
    rw [taken] at ended
    rcases ended with refused | accepted
    · have same : s.renamed e t names = names := by
        simp [Server.renamed, introducing, refused.answer]
      refine ⟨queues, refused.table ▸ named.table, fun i complete => ?_⟩
      obtain ⟨state, session, -⟩ := refused.client i
      rw [same, refused.table]
      show ⟨names i, (t.client i).sessionId⟩ ∈ s.db.tables.sessions
      rw [session]
      exact named.listed i (state ▸ complete)
    · have same : s.renamed e t names = Function.update names c p.sessionName := by
        simp [Server.renamed, introducing, accepted.answer]
      refine ⟨queues, accepted.valid, fun i complete => ?_⟩
      rw [same]
      show ⟨Function.update names c p.sessionName i, (t.client i).sessionId⟩ ∈ t.db.tables.sessions
      by_cases here : i = c
      · subst here
        rw [Function.update_self]
        exact accepted.self
      · obtain ⟨state, session⟩ := accepted.other i here
        rw [Function.update_of_ne here, session]
        exact accepted.kept _ (named.listed i (state ▸ complete))

theorem Named.namedStep {state : Server × Naming} (named : Named state) (e : Event)
    (next : Server × Naming) (taken : Quickshare.namedStep state e = .ok next) : Named next := by
  obtain ⟨t, done, rest⟩ := bind_ok taken
  cases rest
  exact Named.step named done

/-- A refused introduction does no harm while the table is in order. -/
theorem Named.refusals (named : Named (s, names)) (e : Event) : refusalsHarmless s e := by
  intro c p t introducing taken denied
  have ended := step_introducing named.queues named.table introducing
  rw [taken] at ended
  rcases ended with refused | accepted
  · obtain ⟨state, session, name⟩ := refused.client c
    exact ⟨state, session, name, refused.table⟩
  · exact absurd accepted.answer denied

/-- From any table of sessions with unique names and unique positive ids, and
whatever the events and the statements that fail: registered clients always
share an id exactly if their accepted introductions named one session, and a
refused introduction changes neither its client nor the table. -/
theorem sessions_agree (db : Database) (valid : SessionsValid db.tables.sessions)
    (events : List Event) :
    Throughout namedStep sameSessions (Server.init db, fun _ => []) events ∧
      Guarded step refusalsHarmless (Server.init db) events := by
  have start (names : Naming) : Named (Server.init db, names) := by
    refine ⟨init_queuesValid db, valid, fun i complete => ?_⟩
    cases complete
  constructor
  · have always : Guarded namedStep (fun _ _ => True) (Server.init db, fun _ => []) events :=
      Guarded.always (fun _ _ => trivial) _ events
    exact always.throughout (start _) (fun _ e next named _ taken => named.namedStep e next taken)
      fun _ named => named.sameSessions
  · have always : Guarded step (fun _ _ => True) (Server.init db) events :=
      Guarded.always (fun _ _ => trivial) _ events
    let inv (s : Server) : Prop := ∃ names, Named (s, names)
    have begins : inv (Server.init db) := ⟨fun _ => [], start _⟩
    refine always.transfer begins (fun s e t named _ taken => ?_) fun s e named _ => ?_
    · obtain ⟨names, named⟩ := named
      exact ⟨_, named.step taken⟩
    · obtain ⟨names, named⟩ := named
      exact named.refusals e

end Run

/-- A table that already holds the session `a`. -/
def oneSession : Database := { Database.fresh with tables := ⟨[⟨[97], 7⟩], [], []⟩ }

/-- One client joins `a`, and another has announced an introduction. -/
def oneJoined : List Event :=
  connects 4 100 ++ connects 5 101 ++ packetFrom 4 .clientIntro (introBody 0) ++
    (packetFrom 5 .clientIntro (introBody 1)).take 1

/-- The other fails to create `a` and then joins it. -/
def joinAndRetry : List Event :=
  oneJoined ++ .recv 5 (introBody 1) :: packetFrom 5 .clientIntro (introBody 0)

/-- The refused client stays out, and the session is the one of the table for both. -/
theorem sessions_agree_retry :
    (∃ s t, run step (Server.init oneSession) oneJoined = .ok s ∧
      step s (.recv 5 (introBody 1)) = .ok t ∧ s.answer 1 t = some .serverDeny ∧
      (t.client 1).state = .secure ∧ t.db.tables.sessions = [⟨[97], 7⟩]) ∧
    ∃ s, run namedStep (Server.init oneSession, fun _ => []) joinAndRetry = .ok s ∧
      (s.1.client 0).state = .complete ∧ (s.1.client 1).state = .complete ∧
      (s.1.client 0).sessionId = 7 ∧ (s.1.client 1).sessionId = 7 := by
  have valid : SessionsValid oneSession.tables.sessions := ⟨by decide, by decide, by decide⟩
  obtain ⟨same, harmless⟩ := sessions_agree oneSession valid joinAndRetry
  constructor
  · have denied : Run.passes (fun s => Run.passes (fun t => (s.introducing (.recv 5 (introBody 1))).any
        (·.1 = 1) ∧ s.answer 1 t = some .serverDeny ∧ (s.client 1).state = .secure ∧
          s.db.tables.sessions = [⟨[97], 7⟩]) (step s (.recv 5 (introBody 1))) = true)
        (run step (Server.init oneSession) oneJoined) = true := by
      decide +kernel
    obtain ⟨s, reached, refused⟩ := Run.passes_ok denied
    obtain ⟨t, taken, seen⟩ := Run.passes_ok (of_decide_eq_true refused)
    obtain ⟨intro, answer, before, table⟩ := of_decide_eq_true seen
    obtain ⟨⟨c, p⟩, introducing, here⟩ := (Option.any_eq_true _ _).mp intro
    obtain rfl : c = 1 := of_decide_eq_true here
    obtain ⟨state, -, -, sessions⟩ := harmless.at reached 1 p t introducing taken
      (by rw [answer]; decide)
    exact ⟨s, t, reached, taken, answer, state.trans before, sessions.trans table⟩
  · have joined : Run.passes (fun s : Server × Naming => (s.1.client 0).state = .complete ∧
        (s.1.client 1).state = .complete ∧ (s.1.client 0).sessionId = 7 ∧ s.2 1 = s.2 0)
        (run namedStep (Server.init oneSession, fun _ => []) joinAndRetry) = true := by
      decide +kernel
    obtain ⟨s, reached, seen⟩ := Run.passes_ok joined
    obtain ⟨first, second, session, names⟩ := of_decide_eq_true seen
    exact ⟨s, reached, first, second, session,
      ((same.final reached 1 0 second first).mpr names).trans session⟩

end Quickshare
