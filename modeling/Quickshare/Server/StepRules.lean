import Quickshare.Server.HandlerPlans

/-! What one event may do, as proof rules: a predicate kept by the few moves a
step is made of is kept by the step. -/

namespace Quickshare

open Runs

/-- How the TLS object of `c`, if it has one, seals plaintexts. -/
def Client.seals (c : Client) : Option (Nat → List UInt8 → List UInt8) :=
  c.secure.ssl.map Ssl.record

/-- `d` is `c` but for its TLS side, with the TLS object kept. -/
structure Client.SameButSecure (c d : Client) : Prop where
  rest : d = { c with secure := d.secure }
  seals : d.seals = c.seals

/-- `d` is `c` but for its TLS side and at most one packet less in its queue. -/
structure Client.Drains (c d : Client) : Prop where
  rest : d = { c with secure := d.secure, msgQueue := d.msgQueue }
  seals : d.seals = c.seals
  queue : d.msgQueue = c.msgQueue ∨ ∃ x, c.msgQueue.dequeue = some (x, d.msgQueue)

section Client

variable {c d e : Client}

theorem Client.SameButSecure.refl (c : Client) : SameButSecure c c := ⟨rfl, rfl⟩

theorem Client.acted_same (c : Client) (act : WriteAct) : SameButSecure c (c.acted act) :=
  ⟨rfl, rfl⟩

theorem Client.SameButSecure.trans (first : SameButSecure c d) (second : SameButSecure d e) :
    SameButSecure c e where
  rest := by rw [second.rest, first.rest]
  seals := second.seals.trans first.seals

theorem Client.SameButSecure.drains (same : SameButSecure c d) : c.Drains d where
  rest := by rw [same.rest]
  seals := same.seals
  queue := by
    rw [same.rest]
    exact .inl rfl

theorem writeBytes_same (writes : List SysWrite) (c : Client) :
    c.SameButSecure (writeBytes writes c).2.1 := by
  induction writes generalizing c with
  | nil =>
    unfold writeBytes
    split
    · exact .refl c
    · exact c.acted_same .write
  | cons result rest ih =>
    unfold writeBytes
    split
    · exact .refl c
    · cases result with
      | wouldBlock => exact c.acted_same .write
      | failed => exact c.acted_same .write
      | wrote n =>
        dsimp only
        split
        · exact c.acted_same .write
        · have first : c.SameButSecure
              ((c.acted .write).written (min n c.secure.encryptedBuf.len)) := ⟨rfl, rfl⟩
          exact first.trans (ih _)

/-- A relation kept by the two moves queuing and sealing are made of: bytes put into the
output buffer and a plaintext given to the TLS object. -/
structure TlsRule (R : Client → Client → Prop) : Prop where
  refl : ∀ c, R c c
  trans : ∀ {c d e}, R c d → R d e → R c e
  queue : ∀ c bytes, Ends (R c) (fun fault => fault.ofHandler = false) (secureQueueWrite c bytes)
  gives : ∀ c ssl plain, c.secure.ssl = some ssl → R c { c with secure := { c.secure with
    ssl := some { ssl with sealed := ssl.sealed ++ [plain] } } }

namespace TlsRule

variable {R : Client → Client → Prop}

theorem queueAll (rule : TlsRule R) (c : Client) (pieces : List (List UInt8)) :
    Ends (R c) (fun fault => fault.ofHandler = false) (pieces.foldlM secureQueueWrite c) := by
  induction pieces generalizing c with
  | nil => exact rule.refl c
  | cons piece rest ih =>
    rw [List.foldlM_cons]
    refine Ends.bind (rule.queue c piece) fun d moved => ?_
    exact (ih d).mono (fun e _ later => rule.trans moved later) fun _ kept => kept

theorem drainBio (rule : TlsRule R) (c : Client) (record : List UInt8) (bio : Option Nat) :
    Ends (fun result => R c result.2) (fun fault => fault.ofHandler = false)
      (Quickshare.drainBio c record bio) := by
  cases bio with
  | none => exact Ends.bind (rule.queueAll c _) fun d moved => moved
  | some stop => exact Ends.bind (rule.queueAll c _) fun d moved => moved

theorem sslWrote (rule : TlsRule R) (c : Client) (plain : List UInt8) (bio : Option Nat) :
    Ends (fun result => R c result.2) (fun fault => fault.ofHandler = false)
      (Quickshare.sslWrote c plain bio) := by
  unfold Quickshare.sslWrote
  split
  · rfl
  · rename_i ssl found
    have first := rule.gives c ssl plain found
    exact (rule.drainBio _ _ bio).mono (fun d _ later => rule.trans first later) fun _ kept => kept

theorem encryptLoop (rule : TlsRule R) (ssl : List SslWrite) (data : List UInt8) (c : Client) :
    Ends (fun result => R c result.2.1) (fun fault => fault.ofHandler = false)
      (Quickshare.encryptLoop ssl data c) := by
  induction ssl generalizing c data with
  | nil =>
    simp only [Quickshare.encryptLoop]
    split
    · exact rule.refl c
    · exact Ends.bind (rule.sslWrote c data none) fun d moved => moved
  | cons result rest ih =>
    simp only [Quickshare.encryptLoop]
    split
    · exact rule.refl c
    · cases result with
      | moreIo => rfl
      | failed =>
        dsimp only
        split
        · rfl
        · exact rule.refl c
      | wrote n bio =>
        dsimp only
        split
        · exact rule.refl c
        · refine Ends.bind (rule.sslWrote c _ bio) fun d moved => ?_
          split
          · exact (ih _ d.2).mono (fun e _ later => rule.trans moved later) fun _ kept => kept
          · exact moved

end TlsRule

/-- A client-level function changes only the TLS side, and where it fails it is
not as a packet handler does. -/
def TlsOnly {Result : Type} (c : Client) (client : Result → Client) (r : Except Fault Result) :
    Prop :=
  Ends (fun result => c.SameButSecure (client result)) (fun fault => fault.ofHandler = false) r

theorem tlsOnly_rule : TlsRule Client.SameButSecure where
  refl := .refl
  trans := .trans
  queue := fun c bytes => by
    simp only [secureQueueWrite]
    split
    · exact ⟨rfl, rfl⟩
    · rfl
  gives := fun c ssl plain found => ⟨rfl, by simp [Client.seals, found]⟩

theorem queueAll_tls (c : Client) (pieces : List (List UInt8)) :
    TlsOnly c id (pieces.foldlM secureQueueWrite c) :=
  tlsOnly_rule.queueAll c pieces

theorem encrypt_tls (p : Packet) (c : Client) (ssl : List SslWrite) :
    TlsOnly c (fun result => result.2.1) (encrypt p c ssl) := by
  unfold encrypt
  split
  · rfl
  · exact (tlsOnly_rule.encryptLoop ssl p.wire _).mono
      (fun d _ later => (c.acted_same .encrypt).trans later) fun _ kept => kept

end Client

theorem closeClient_fault (s : Server) (fd : Int) (deleted : Bool) :
    Ends (fun _ => True) (fun failed => failed.1 = .packet) (closeClient s fd deleted) := by
  rw [closeClient_eq]
  split
  · dsimp only
    split
    · trivial
    · exact (leaveSession_sends _ _).fault.bind fun _ _ => trivial
  · trivial

section Write

variable {P : Server → Prop} {E : Fault × Server → Prop} {s : Server} {i : Slot} {fd : Int}

/-- A predicate kept by what `write_data` does to its client and by
`close_client` on one descriptor is kept by `write_data` there. -/
structure WriteRuleAt (fd : Int) (deleted : Bool) (P : Server → Prop) (E : Fault × Server → Prop) :
    Prop where
  fail : ∀ s fault, fault.ofHandler = false → P s → E (fault, s)
  drain : ∀ s i d, P s → (s.client i).Drains d → P (s.modify i fun _ => d)
  close : ∀ s, P s → Ends P E (closeClient s fd deleted)

namespace WriteRuleAt

variable {deleted : Bool}

theorem same {d : Client} (rule : WriteRuleAt fd deleted P E) (held : P s)
    (same : (s.client i).SameButSecure d) : P (s.modify i fun _ => d) :=
  rule.drain s i d held same.drains

theorem writeClose (rule : WriteRuleAt fd deleted P E) (held : P s) :
    Ends P E (Quickshare.writeClose s i fd deleted) :=
  rule.close _ (rule.same held ((s.client i).acted_same .close))

theorem encryptNext (rule : WriteRuleAt fd deleted P E) (held : P s) (env : WriteEnv)
    (close : env.deleted = deleted) :
    Ends (fun r => P r.2 ∧ r.1.deleted = deleted) E (Quickshare.encryptNext s i fd env) := by
  subst close
  unfold Quickshare.encryptNext
  cases taken : (s.client i).msgQueue.dequeue with
  | none => exact ⟨held, rfl⟩
  | some found =>
    obtain ⟨packet, q⟩ := found
    let s' := s.modify i fun c => { c.acted .dequeue with msgQueue := q }
    have taken' : P s' := rule.drain s i { (s.client i).acted .dequeue with msgQueue := q } held
      ⟨rfl, rfl, .inr ⟨packet, taken⟩⟩
    show Ends _ E ((s'.lift i (encrypt packet (s'.client i) env.ssl)).bind _)
    have sealed := encrypt_tls packet (s'.client i) env.ssl
    cases encrypted : encrypt packet (s'.client i) env.ssl with
    | error fault =>
      rw [encrypted] at sealed
      exact rule.fail s' fault sealed taken'
    | ok result =>
      obtain ⟨done, d, rest⟩ := result
      rw [encrypted] at sealed
      have next : P (s'.modify i fun _ => d) := rule.same taken' sealed
      cases done with
      | true => exact ⟨next, rfl⟩
      | false => exact (rule.writeClose next).bind fun t closed => ⟨closed, rfl⟩

theorem writeLoop (rule : WriteRuleAt fd deleted P E) (fuel : Nat) (held : P s)
    (state : WriteResult) (env : WriteEnv) (close : env.deleted = deleted) :
    Ends P E (Quickshare.writeLoop fuel s i fd state env) := by
  induction fuel generalizing s state env with
  | zero => exact held
  | succ fuel ih =>
    let out := if (s.client i).secure.encryptedBuf.len > 0 then writeBytes env.writes (s.client i)
      else (state, s.client i, env.writes)
    have written : P (s.modify i fun _ => out.2.1) := by
      refine rule.same held ?_
      simp only [out]
      split
      · exact writeBytes_same ..
      · exact .refl _
    show Ends P E (if out.1 = .error then Quickshare.writeClose _ i fd env.deleted else
      (Quickshare.encryptNext _ i fd { env with writes := out.2.2 }).bind _)
    split
    · rw [close]
      exact rule.writeClose written
    · have sealed := rule.encryptNext (i := i) written { env with writes := out.2.2 } close
      refine sealed.bind fun next kept => ?_
      dsimp only
      split
      · exact ih kept.1 _ _ kept.2
      · exact kept.1

theorem writeData (rule : WriteRuleAt fd deleted P E) (held : P s) (env : WriteEnv)
    (close : env.deleted = deleted) : Ends P E (Quickshare.writeData s fd env) := by
  unfold Quickshare.writeData
  cases clientFind s.clients fd with
  | none => exact held
  | some i => exact rule.writeLoop _ held _ _ close

end WriteRuleAt

/-- The rule for a predicate that `close_client` keeps on every descriptor. -/
structure WriteRule (P : Server → Prop) (E : Fault × Server → Prop) : Prop where
  fail : ∀ s fault, fault.ofHandler = false → P s → E (fault, s)
  drain : ∀ s i d, P s → (s.client i).Drains d → P (s.modify i fun _ => d)
  close : ∀ s fd deleted, P s → Ends P E (closeClient s fd deleted)

namespace WriteRule

theorem toAt (rule : WriteRule P E) (fd : Int) (deleted : Bool) : WriteRuleAt fd deleted P E :=
  ⟨rule.fail, rule.drain, fun s => rule.close s fd deleted⟩

theorem same {d : Client} (rule : WriteRule P E) (held : P s)
    (same : (s.client i).SameButSecure d) : P (s.modify i fun _ => d) :=
  rule.drain s i d held same.drains

theorem writeData (rule : WriteRule P E) (held : P s) (fd : Int) (env : WriteEnv) :
    Ends P E (Quickshare.writeData s fd env) :=
  (rule.toAt fd env.deleted).writeData held env rfl

end WriteRule

end Write

section Step

variable {P : Server → Prop} {E : Fault × Server → Prop} {s : Server}

/-- What else keeps a predicate, apart from taking a slot and receiving, where
the event matters. -/
structure StepRule (P : Server → Prop) (E : Fault × Server → Prop) : Prop
    extends WriteRule P E where
  frame : ∀ s epoll openFds, P s → P { s with epoll, openFds }
  setFd : ∀ s i fd, P s → P (s.modify i fun c => { c with fd })
  secured : ∀ s i, P s → (s.client i).state = .connected →
    P (s.modify i fun c => { c with state := .secure })

namespace StepRule

/-- The rule for a predicate that neither queues nor the database matter to. -/
theorem of_clients (same : ∀ s t, SameClients s t → P s → P t)
    (drain : ∀ s i d, P s → (s.client i).Drains d → P (s.modify i fun _ => d))
    (closed : ∀ s fd, P s → P (s.closed fd))
    (setFd : ∀ s i fd, P s → P (s.modify i fun c => { c with fd }))
    (secured : ∀ s i, P s → (s.client i).state = .connected →
      P (s.modify i fun c => { c with state := .secure })) :
    StepRule P fun _ => True where
  fail := fun _ _ _ _ => trivial
  drain := drain
  close := fun s fd deleted held => by
    rw [closeClient_eq]
    split
    · have held : P { s with epoll := s.epoll.erase fd } := same s _ (.of_clients rfl) held
      dsimp only
      split
      · exact held
      · rename_i c found
        have left := (leaveSession_sends { s with epoll := s.epoll.erase fd } c).ends
        exact (left.mono (fun t _ kept => same _ t kept held) fun _ _ => trivial).bind
          fun t held => closed t fd held
    · exact held
  frame := fun s _ _ held => same s _ (.of_clients rfl) held
  setFd := setFd
  secured := secured

theorem acceptOne (rule : StepRule P E) (held : P s) (conn : Connection)
    (take : ∀ i clients, clientInit s.clients conn.now conn.ssl = some (i, clients) →
      P { s with clients }) :
    Ends (fun r => P r.2) E (Quickshare.acceptOne s conn) := by
  simp only [Quickshare.acceptOne]
  cases taken : clientInit s.clients conn.now conn.ssl with
  | none =>
    have closed := rule.close _ conn.fd conn.deleted
      (rule.frame s s.epoll (conn.fd :: s.openFds) held)
    exact closed.bind fun t kept =>
       show Ends (fun r : Bool × Server => P r.2) E (.ok (false, t)) from kept
  | some found =>
    obtain ⟨i, clients⟩ := found
    have held := rule.frame _ s.epoll (conn.fd :: s.openFds) (take i clients taken)
    by_cases added : conn.added = true ∧ conn.fd ∉ s.epoll
    · simp only [epollAdd, if_pos added]
      have registered := rule.setFd _ i conn.fd
        (rule.frame _ (conn.fd :: s.epoll) (conn.fd :: s.openFds) held)
      exact registered
    · simp only [epollAdd, if_neg added]
      exact (rule.close _ conn.fd conn.deleted held).bind fun t kept =>
        show Ends (fun r : Bool × Server => P r.2) E (.ok (false, t)) from kept

/-- A predicate kept by every kind of move is kept by a step. -/
theorem step (rule : StepRule P E) (held : P s) (e : Event)
    (take : ∀ conn i clients, e = .accept conn → conn.fd ∉ s.openFds → conn.fd ∉ s.epoll →
      clientInit s.clients conn.now conn.ssl = some (i, clients) → P { s with clients })
    (receive : ∀ fd chunk c, e = .recv fd chunk → clientFind s.clients fd = some c →
      (s.client c).secured = true → 0 < chunk.length →
      (chunk.length : Int) ≤ (s.client c).decryptBuf.wanted → Ends P E (decryptData s c chunk)) :
    Ends P E (Quickshare.step s e) := by
  cases e with
  | accept conn =>
    by_cases used : conn.fd ∈ s.openFds ∨ conn.fd ∈ s.epoll
    · simp only [Quickshare.step, if_pos used]
      exact held
    · simp only [Quickshare.step, if_neg used]
      obtain ⟨closed, unknown⟩ := not_or.mp used
      exact (rule.acceptOne held conn fun i clients => take conn i clients rfl closed unknown).bind
        fun r kept => show Ends P E (.ok r.2) from kept
  | handshake fd =>
    show P (completeHandshake s fd)
    unfold completeHandshake
    cases clientFind s.clients fd with
    | none => exact held
    | some c =>
      dsimp only
      split
      · rename_i connected
        exact rule.secured s c held connected
      · exact held
  | wantMore fd bytes =>
    show Ends P E (sslWantMore s fd bytes)
    unfold sslWantMore
    cases clientFind s.clients fd with
    | none => exact held
    | some c =>
      dsimp only
      have queued := queueAll_tls (s.client c) (bioPieces bytes.length bytes)
      split
      · rename_i ended
        rw [ended] at queued
        exact rule.fail s _ queued held
      · rename_i ended
        rw [ended] at queued
        exact rule.same held queued
  | recv fd chunk =>
    show Ends P E (readData s fd chunk)
    unfold readData
    cases found : clientFind s.clients fd with
    | none => exact rule.fail s _ rfl held
    | some c =>
      dsimp only
      split
      · rename_i ready
        exact receive fd chunk c rfl found ready.1 ready.2.1 ready.2.2
      · exact held
  | write fd env => exact rule.writeData held fd env
  | close fd deleted => exact rule.close s fd deleted held

end StepRule

/-- The buffer of `c` after one `SSL_read`. -/
def Server.received (s : Server) (c : Slot) (buf : Buffer packetMaxSize) : Server :=
  s.modify c fun client => { client with decryptBuf := buf }

/-- The buffer of `c` holds a whole packet, and `analize_packet` is called for it. -/
def Server.handed (s : Server) (c : Slot) (buf : Buffer packetMaxSize) : Server :=
  (s.received c buf).called c

@[simp] theorem Server.handed_client (s : Server) (c i : Slot) (buf : Buffer packetMaxSize) :
    (s.handed c buf).client i = (s.received c buf).client i := rfl

/-- The buffer of `c` is ready for the next packet. -/
def Server.rewound (s : Server) (c : Slot) : Server :=
  s.modify c fun client =>
    { client with decryptBuf := { client.decryptBuf with len := 0, size := 0 } }

theorem decryptData_eq (s : Server) (c : Slot) (chunk : List UInt8) :
    decryptData s c chunk = match (s.client c).decryptBuf.receive chunk with
      | none => .error (.outOfBounds, s)
      | some (true, buf) =>
        (analizePacket (s.handed c buf) c).bind fun t => .ok (t.rewound c)
      | some (false, buf) => .ok (s.received c buf) := by
  unfold decryptData
  cases (s.client c).decryptBuf.receive chunk with
  | none => rfl
  | some result =>
    obtain ⟨whole, buf⟩ := result
    cases whole <;> rfl

/-- Whatever happens to a packet handled at once happens to its bytes read. -/
theorem decryptData_ends {c : Slot} {chunk : List UInt8} (fail : E (.outOfBounds, s))
    (more : ∀ buf, (s.client c).decryptBuf.receive chunk = some (false, buf) →
      P (s.received c buf))
    (whole : ∀ buf, (s.client c).decryptBuf.receive chunk = some (true, buf) →
      Ends (fun t => P (t.rewound c)) E (analizePacket (s.handed c buf) c)) :
    Ends P E (decryptData s c chunk) := by
  rw [decryptData_eq]
  split
  · exact fail
  · rename_i buf received
    exact (whole buf received).bind fun t kept => kept
  · rename_i buf received
    exact more buf received

/-- The client whose packet this event completes, and the state in which it is handled. -/
def Server.delivers (s : Server) : Event → Option (Slot × Server)
  | .recv fd chunk =>
    match clientFind s.clients fd with
    | none => none
    | some c =>
      if (s.client c).secured ∧ 0 < chunk.length ∧
          (chunk.length : Int) ≤ (s.client c).decryptBuf.wanted then
        match (s.client c).decryptBuf.receive chunk with
        | some (true, buf) => some (c, s.handed c buf)
        | _ => none
      else none
  | _ => none

theorem delivers_received {t : Server} {c : Slot} {e : Event}
    (delivers : s.delivers e = some (c, t)) : ∃ fd chunk buf, e = .recv fd chunk ∧
      clientFind s.clients fd = some c ∧ t = s.handed c buf := by
  cases e with
  | recv fd chunk =>
    simp only [Server.delivers] at delivers
    cases found : clientFind s.clients fd with
    | none => simp [found] at delivers
    | some i =>
      simp only [found] at delivers
      split at delivers
      · split at delivers
        · rename_i buf received
          cases delivers
          exact ⟨fd, chunk, buf, rfl, found, rfl⟩
        · cases delivers
      · cases delivers
  | _ => cases delivers

theorem step_delivers {t : Server} {c : Slot} {e : Event} (delivers : s.delivers e = some (c, t)) :
    step s e = (analizePacket t c).bind fun u => .ok (u.rewound c) := by
  cases e with
  | recv fd chunk =>
    simp only [Server.delivers] at delivers
    simp only [step, readData]
    cases found : clientFind s.clients fd with
    | none => simp [found] at delivers
    | some i =>
      simp only [found] at delivers ⊢
      by_cases ready : (s.client i).secured = true ∧ 0 < chunk.length ∧
          (chunk.length : Int) ≤ (s.client i).decryptBuf.wanted
      · rw [if_pos ready] at delivers ⊢
        rw [decryptData_eq]
        split at delivers
        · rename_i buf received
          cases delivers
          rw [received]
        · cases delivers
      · rw [if_neg ready] at delivers
        cases delivers
  | _ => cases delivers

/-- Bytes that complete no packet only go into a buffer. -/
theorem recv_not_delivers {fd : Int} {chunk : List UInt8}
    (none : s.delivers (.recv fd chunk) = none) :
    Ends (fun t => t = s ∨ ∃ c buf, t = s.received c buf) (fun failed => failed.2 = s)
      (step s (.recv fd chunk)) := by
  simp only [Server.delivers] at none
  simp only [step, readData]
  cases found : clientFind s.clients fd with
  | none => rfl
  | some c =>
    simp only [found] at none ⊢
    split at none
    · rename_i ready
      rw [if_pos ready, decryptData_eq]
      split
      · rfl
      · rename_i received
        simp [received] at none
      · rename_i buf _
        exact .inr ⟨c, buf, rfl⟩
    · rename_i early
      rw [if_neg early]
      exact .inl rfl

/-- The rule for a predicate to which packets half received do not matter. -/
structure PacketRule (P : Server → Prop) (E : Fault × Server → Prop) : Prop
    extends StepRule P E where
  received : ∀ s c buf, P s → P (s.received c buf)
  called : ∀ s c, P s → P (s.called c)

theorem PacketRule.handed (rule : PacketRule P E) (held : P s) (c : Slot)
    (buf : Buffer packetMaxSize) : P (s.handed c buf) :=
  rule.called _ c (rule.received s c buf held)

/-- Such a predicate is kept by a step if it is kept by the packet it delivers
and by the slot it takes. -/
theorem PacketRule.step (rule : PacketRule P E) (held : P s) (e : Event)
    (take : ∀ conn i clients, e = .accept conn → conn.fd ∉ s.openFds → conn.fd ∉ s.epoll →
      clientInit s.clients conn.now conn.ssl = some (i, clients) → P { s with clients })
    (deliver : ∀ c t, s.delivers e = some (c, t) → P t → Ends P E (analizePacket t c)) :
    Ends P E (Quickshare.step s e) := by
  refine rule.toStepRule.step held e take fun fd chunk c same found secured inhabited wanted => ?_
  subst same
  refine decryptData_ends (rule.fail s _ rfl held) (fun buf _ => rule.received s c buf held)
    fun buf received => ?_
  have delivers : s.delivers (.recv fd chunk) = some (c, s.handed c buf) := by
    simp only [Server.delivers, found, received]
    exact if_pos ⟨secured, inhabited, wanted⟩
  exact (deliver c _ delivers (rule.handed held c buf)).mono
    (fun t _ kept => rule.received t c _ kept) fun _ kept => kept

end Step

section Handler

variable {P : Server → Prop} {E : Fault × Server → Prop} {s t : Server} {c : Slot}

/-- A predicate kept by sending and by what else a handler run for `c` does is
kept by handling a packet. -/
structure HandlerRule (c : Slot) (P : Server → Prop) (E : Fault × Server → Prop) : Prop where
  sends : ∀ s plan db r, P s → Sends s plan db r → Ends P E r
  frame : ∀ s db committed, P s → P { s with db, committed }
  fail : ∀ s fault, P s → E (fault, s)
  terminated : ∀ s, P s → P (s.terminated c)
  completed : ∀ s session name, session ≠ 0 → P s → P (s.completed c session name)

namespace HandlerRule

theorem packetIntro (rule : HandlerRule c P E) (held : P s) :
    Ends P E (Quickshare.packetIntro s c) := by
  rw [packetIntro_eq]
  by_cases abnormal : (s.client c).state = .complete ∨
      (s.client c).decryptBuf.packet.introSession > 1
  · rw [if_pos abnormal]
    exact rule.sends s _ _ _ held (serverResponse_sends s c .serverDeny)
  · rw [if_neg abnormal]
    generalize s.introduced c = opened
    generalize (terminateIntro (s.client c).decryptBuf.packet).introName = name
    have terminated : P { s.terminated c with db := opened.2 } :=
      rule.frame _ opened.2 s.committed (rule.terminated s held)
    dsimp only
    split
    · exact rule.sends _ _ _ _ terminated (serverResponse_sends _ c .serverDeny)
    · rename_i valid
      have answered := rule.sends _ _ _ _ terminated (serverResponse_sends _ c .serverOk)
      exact answered.bind fun t kept => rule.sends _ _ _ _
        (rule.completed t opened.1 name valid kept) (sendSessionUsers_sends _ c)

theorem packetTransfer (rule : HandlerRule c P E) (held : P s) :
    Ends P E (Quickshare.packetTransfer s c) := by
  by_cases begun : s.begun.1 = true
  · by_cases recorded : (s.recorded c).1 = true
    · have counted := rule.frame s s.db (s.committed ++ [(s.recorded c).2.1]) held
      exact rule.sends _ _ _ _ counted (packetTransfer_granted begun recorded)
    · obtain ⟨r, sends, same⟩ := packetTransfer_refused begun (by simpa using recorded)
      rw [same]
      refine (rule.sends _ _ _ _ held sends).bind fun t kept => ?_
      generalize (debugTransfer (s.client c).decryptBuf.packet).inside = inside
      cases inside
      · exact rule.fail t _ kept
      · exact kept
  · exact rule.sends _ _ _ _ held (packetTransfer_busy (by simpa using begun))

theorem analizePacket (rule : HandlerRule c P E) (held : P s) :
    Ends P E (Quickshare.analizePacket s c) := by
  unfold Quickshare.analizePacket
  split
  · exact rule.packetIntro held
  · exact rule.packetTransfer held
  · by_cases gone : s.creatorGone c
    · rw [packetReply_gone gone]
      exact rule.fail _ _ (rule.frame s _ s.committed held)
    · exact rule.sends _ _ _ _ held (packetReply_sends gone)
  · exact rule.sends _ _ _ _ held (packetData_sends s c)
  · exact rule.sends _ _ _ _ held (packetComplete_sends s c)
  · exact rule.sends _ _ _ _ held (packetCancel_sends s c)
  · exact held

end HandlerRule

end Handler

/-! What handling a packet and closing a client leave of the clients. -/

section Handled

variable {s t : Server} {c i : Slot}

/-- All that a handler run for `c` may change of the clients: their queues, and
for `c` the packet held and its registration. -/
structure Handled (c : Slot) (s t : Server) : Prop where
  id : ∀ i, (t.client i).id = (s.client i).id
  fd : ∀ i, (t.client i).fd = (s.client i).fd
  len : ∀ i, (t.client i).decryptBuf.len = (s.client i).decryptBuf.len
  size : ∀ i, (t.client i).decryptBuf.size = (s.client i).decryptBuf.size
  secure : ∀ i, (t.client i).secure = (s.client i).secure
  state : ∀ i, (t.client i).state = (s.client i).state ∧
    (t.client i).sessionId = (s.client i).sessionId ∨
    i = c ∧ (t.client i).state = .complete ∧ (t.client i).sessionId ≠ 0

theorem SameClients.handled (same : SameClients s t) (c : Slot) : Handled c s t where
  id := same.id
  fd := same.fd
  len := fun i => by rw [same.decryptBuf]
  size := fun i => by rw [same.decryptBuf]
  secure := same.secure
  state := fun i => .inl ⟨same.state i, same.sessionId i⟩

theorem Handled.of_clients (same : t.clients = s.clients) (c : Slot) : Handled c s t :=
  (SameClients.of_clients same).handled c

theorem Handled.trans {u : Server} (first : Handled c s t) (second : Handled c t u) :
    Handled c s u where
  id := fun i => (second.id i).trans (first.id i)
  fd := fun i => (second.fd i).trans (first.fd i)
  len := fun i => (second.len i).trans (first.len i)
  size := fun i => (second.size i).trans (first.size i)
  secure := fun i => (second.secure i).trans (first.secure i)
  state := fun i => by
    rcases second.state i with ⟨state, session⟩ | registered
    · rcases first.state i with ⟨before, joined⟩ | ⟨here, complete, nonzero⟩
      · exact .inl ⟨state.trans before, session.trans joined⟩
      · exact .inr ⟨here, state.trans complete, session ▸ nonzero⟩
    · exact .inr registered

theorem terminated_handled (s : Server) (c : Slot) : Handled c s (s.terminated c) := by
  let f (client : Client) : Client := { client with
    decryptBuf := { client.decryptBuf with data := terminateIntro (s.client c).decryptBuf.packet } }
  exact {
    id := s.clients.modify_field c f Client.id fun _ => rfl
    fd := s.clients.modify_field c f Client.fd fun _ => rfl
    len := s.clients.modify_field c f (fun client => client.decryptBuf.len) fun _ => rfl
    size := s.clients.modify_field c f (fun client => client.decryptBuf.size) fun _ => rfl
    secure := s.clients.modify_field c f Client.secure fun _ => rfl
    state := fun i => .inl
      ⟨s.clients.modify_field c f Client.state (fun _ => rfl) i,
        s.clients.modify_field c f Client.sessionId (fun _ => rfl) i⟩ }

theorem completed_handled (s : Server) (c : Slot) (name : List UInt8) {session : SessionId}
    (opened : session ≠ 0) : Handled c s (s.completed c session name) := by
  let f (client : Client) : Client := { client with state := .complete, sessionId := session, name }
  exact {
    id := s.clients.modify_field c f Client.id fun _ => rfl
    fd := s.clients.modify_field c f Client.fd fun _ => rfl
    len := s.clients.modify_field c f (fun client => client.decryptBuf.len) fun _ => rfl
    size := s.clients.modify_field c f (fun client => client.decryptBuf.size) fun _ => rfl
    secure := s.clients.modify_field c f Client.secure fun _ => rfl
    state := fun i => by
      by_cases here : i = c
      · subst here
        rw [Server.completed, Server.client_modify_self]
        exact .inr ⟨rfl, rfl, opened⟩
      · rw [Server.completed, s.client_modify_of_ne f here]
        exact .inl ⟨rfl, rfl⟩ }

/-- How a computation leaves the clients, whether it ends well or not. -/
def Touches (c : Slot) (s : Server) (r : Run Server) : Prop :=
  Ends (Handled c s) (fun failed => Handled c s failed.2) r

/-- A packet of `c` changes no client's id, descriptor or read position, and
registers nobody but `c`. -/
theorem analizePacket_touches (s : Server) (c : Slot) : Touches c s (analizePacket s c) := by
  have rule : HandlerRule c (Handled c s) fun failed => Handled c s failed.2 := {
    sends := by
      intro t plan db r held sends
      have same := sends.same
      cases r with
      | ok u => exact held.trans (SameClients.handled same c)
      | error failed => exact held.trans (SameClients.handled same c)
    frame := fun t db committed held => held.trans (.of_clients (by rfl) c)
    fail := fun _ _ held => held
    terminated := fun t held => held.trans (terminated_handled t c)
    completed := fun t session name opened held => held.trans (completed_handled t c name opened) }
  exact rule.analizePacket (.of_clients rfl c)

end Handled

/-! Packets leave the descriptors alone. -/

section Descriptors

variable {s t : Server} {plan : Plan} {db : Database} {r : Run Server}

/-- The same descriptors are registered and open. -/
structure SameDescriptors (s t : Server) : Prop where
  epoll : t.epoll = s.epoll
  openFds : t.openFds = s.openFds

theorem SameDescriptors.refl (s : Server) : SameDescriptors s s := ⟨rfl, rfl⟩

/-- A computation that succeeds leaves the descriptors alone. -/
def KeepsDescriptors (s : Server) (r : Run Server) : Prop :=
  Ends (SameDescriptors s) (fun _ => True) r

theorem Sends.descriptors (sends : Sends s plan db r) : KeepsDescriptors s r := by
  cases r with
  | error failed => trivial
  | ok t =>
    obtain ⟨u, sent, rfl⟩ := sends.ok t rfl
    have epoll := Server.sendAll_kept Server.epoll (fun _ _ _ => rfl) sent
    have openFds := Server.sendAll_kept Server.openFds (fun _ _ _ => rfl) sent
    exact ⟨epoll, openFds⟩

theorem SameDescriptors.trans {u : Server} (first : SameDescriptors s t)
    (second : SameDescriptors t u) : SameDescriptors s u :=
  ⟨second.epoll.trans first.epoll, second.openFds.trans first.openFds⟩

theorem analizePacket_descriptors (s : Server) (c : Slot) :
    KeepsDescriptors s (analizePacket s c) := by
  have rule : HandlerRule c (SameDescriptors s) fun _ => True := {
    sends := fun t plan db r held sends =>
      sends.descriptors.mono (fun _ _ same => held.trans same) fun _ _ => trivial
    frame := fun _ _ _ held => ⟨held.epoll, held.openFds⟩
    fail := fun _ _ _ => trivial
    terminated := fun _ held => ⟨held.epoll, held.openFds⟩
    completed := fun _ _ _ _ held => ⟨held.epoll, held.openFds⟩ }
  exact rule.analizePacket (.refl s)

end Descriptors

end Quickshare
