import Quickshare.Server.Accepting
import Quickshare.Server.Framing
import Quickshare.Server.WriteLoop

/-! `server_loop` over one connection: the bytes its peer sends, what of them
has arrived, and what `epoll_wait` reports. -/

namespace Quickshare

open Runs Bytes

/-- The descriptor an event is about. -/
def Event.fd? : Event → Option Int
  | .accept _ => none
  | .handshake fd | .wantMore fd _ | .recv fd _ | .write fd _ | .close fd _ => some fd

/-- `c` is the registered client of `fd`, in this state and with this buffer. -/
structure Server.Attends (s : Server) (c : Slot) (fd : Int) (state : ClientState)
    (buf : Buffer packetMaxSize) : Prop where
  found : clientFind s.clients fd = some c
  state : (s.client c).state = state
  buffer : (s.client c).decryptBuf = buf
  listed : fd ∈ s.epoll
  opened : fd ∈ s.openFds

section Attends

variable {s t : Server} {c i : Slot} {fd other : Int} {state : ClientState}
variable {buf : Buffer packetMaxSize}

/-- Whether a client answers to `fd`. -/
def Client.answers (fd : Int) (client : Client) : Bool := client.state ≠ .empty ∧ client.fd = fd

theorem clientFind_congr (same : ∀ i, (t.client i).answers fd = (s.client i).answers fd) :
    clientFind t.clients fd = clientFind s.clients fd :=
  ClientList.search_congr same

/-- Changing a client that answers to another descriptor before and after. -/
theorem clientFind_modify (f : Client → Client) (before : (s.client i).answers fd = false)
    (after : (f (s.client i)).answers fd = false) :
    clientFind (s.modify i f).clients fd = clientFind s.clients fd := by
  apply clientFind_congr
  intro j
  by_cases here : j = i
  · subst here
    rw [Server.client_modify_self, before, after]
  · rw [Server.client_modify_of_ne _ _ here]

theorem Client.answers_of_ne {client : Client} (ne : client.fd ≠ fd) : client.answers fd = false := by
  simp [answers, ne]

namespace Server.Attends

theorem live (attends : s.Attends c fd state buf) : (s.client c).state ≠ .empty :=
  (clientFind_some attends.found).1

theorem fd_eq (attends : s.Attends c fd state buf) : (s.client c).fd = fd :=
  (clientFind_some attends.found).2

theorem same (attends : s.Attends c fd state buf) (clients : SameClients s t)
    (descriptors : SameDescriptors s t) : t.Attends c fd state buf where
  found := (clients.find fd).trans attends.found
  state := (clients.state c).trans attends.state
  buffer := (clients.decryptBuf c).trans attends.buffer
  listed := descriptors.epoll ▸ attends.listed
  opened := descriptors.openFds ▸ attends.opened

/-- Another client may change as long as it does not come to answer to `fd`. -/
theorem modify (attends : s.Attends c fd state buf) (f : Client → Client) (apart : c ≠ i)
    (before : (s.client i).answers fd = false) (after : (f (s.client i)).answers fd = false) :
    (s.modify i f).Attends c fd state buf where
  found := (clientFind_modify f before after).trans attends.found
  state := by rw [Server.client_modify_of_ne _ _ apart, attends.state]
  buffer := by rw [Server.client_modify_of_ne _ _ apart, attends.buffer]
  listed := attends.listed
  opened := attends.opened

/-- Whoever answers to another descriptor is another client. -/
theorem apart (attends : s.Attends c fd state buf) (ne : other ≠ fd)
    (found : clientFind s.clients other = some i) : c ≠ i := by
  rintro rfl
  exact ne ((clientFind_some found).2.symm.trans attends.fd_eq)

theorem modify_other (attends : s.Attends c fd state buf) (ne : other ≠ fd)
    (found : clientFind s.clients other = some i) (f : Client → Client)
    (kept : (f (s.client i)).fd = (s.client i).fd) : (s.modify i f).Attends c fd state buf := by
  have theirs : (s.client i).fd ≠ fd := by
    rw [show (s.client i).fd = other from (clientFind_some found).2]
    exact ne
  exact attends.modify f (attends.apart ne found) (Client.answers_of_ne theirs)
    (Client.answers_of_ne (kept ▸ theirs))

/-- A client may change as long as its state, descriptor and buffer stay. -/
theorem kept {d : Client} (attends : s.Attends c fd state buf) (same : d.state = (s.client i).state)
    (answers : d.fd = (s.client i).fd) (buffer : d.decryptBuf = (s.client i).decryptBuf) :
    (s.modify i fun _ => d).Attends c fd state buf where
  found := by
    rw [← attends.found]
    apply clientFind_congr
    intro j
    by_cases here : j = i
    · subst here
      rw [Server.client_modify_self, Client.answers, Client.answers, same, answers]
    · rw [Server.client_modify_of_ne _ _ here]
  state := by
    by_cases here : c = i
    · subst here
      rw [Server.client_modify_self, same, attends.state]
    · rw [Server.client_modify_of_ne _ _ here, attends.state]
  buffer := by
    by_cases here : c = i
    · subst here
      rw [Server.client_modify_self, buffer, attends.buffer]
    · rw [Server.client_modify_of_ne _ _ here, attends.buffer]
  listed := attends.listed
  opened := attends.opened

theorem sends {plan : Plan} {db : Database} {r : Run Server} (attends : s.Attends c fd state buf)
    (sends : Sends s plan db r) : Ends (fun t => t.Attends c fd state buf) (fun _ => True) r := by
  have kept := sends.descriptors
  have same := sends.same
  cases r with
  | ok t => exact attends.same same kept
  | error failed => trivial

theorem closed (attends : s.Attends c fd state buf) (ne : other ≠ fd) :
    (s.closed other).Attends c fd state buf := by
  have opened : fd ∈ s.openFds.erase other := (List.mem_erase_of_ne (Ne.symm ne)).mpr attends.opened
  unfold Server.closed clientClose
  cases found : clientFind s.clients other with
  | none => exact ⟨attends.found, attends.state, attends.buffer, attends.listed, opened⟩
  | some i =>
    have freed := attends.modify_other ne found Client.freed rfl
    exact ⟨freed.found, freed.state, freed.buffer, freed.listed, opened⟩

theorem closeClient (attends : s.Attends c fd state buf) (ne : other ≠ fd) (deleted : Bool) :
    Ends (fun t => t.Attends c fd state buf) (fun _ => True) (closeClient s other deleted) := by
  rw [closeClient_eq]
  split
  · have fewer : Server.Attends { s with epoll := s.epoll.erase other } c fd state buf :=
      ⟨attends.found, attends.state, attends.buffer,
        (List.mem_erase_of_ne (Ne.symm ne)).mpr attends.listed, attends.opened⟩
    dsimp only
    split
    · exact fewer
    · exact (fewer.sends (leaveSession_sends _ _)).bind fun t kept => kept.closed ne
  · exact attends

end Server.Attends

/-- A new client answers to its own descriptor only. -/
theorem acceptOne_attends (attends : s.Attends c fd state buf) (nonzero : fd ≠ 0) (conn : Connection)
    (ne : conn.fd ≠ fd) (unknown : conn.fd ∉ s.epoll) :
    Ends (fun r => r.2.Attends c fd state buf) (fun _ => True) (acceptOne s conn) := by
  have unlisted : ¬ (conn.deleted = true ∧ conn.fd ∈ s.epoll) := fun known => unknown known.2
  have opened : Server.Attends { s with openFds := conn.fd :: s.openFds } c fd state buf :=
    ⟨attends.found, attends.state, attends.buffer, attends.listed, .tail _ attends.opened⟩
  simp only [acceptOne]
  cases taken : clientInit s.clients conn.now conn.ssl with
  | none =>
    rw [closeClient_eq, if_neg unlisted]
    exact opened
  | some found =>
    obtain ⟨i, clients⟩ := found
    obtain ⟨empty, rfl⟩ := clientInit_some taken
    have apart : c ≠ i := by
      rintro rfl
      exact attends.live empty
    have free : (s.client i).answers fd = false := by
      have state : (s.client i).state = .empty := empty
      simp [Client.answers, state]
    have configured : (clientConfigure conn.now conn.ssl (s.client i)).fd ≠ fd := Ne.symm nonzero
    have held := opened.modify (clientConfigure conn.now conn.ssl) apart free
      (Client.answers_of_ne configured)
    by_cases added : conn.added = true ∧ conn.fd ∉ s.epoll
    · simp only [epollAdd, if_pos added]
      have named := held.modify (fun client => { client with fd := conn.fd }) apart (by
        rw [Server.client_modify_self]
        exact Client.answers_of_ne configured) (Client.answers_of_ne ne)
      exact ⟨named.found, named.state, named.buffer, .tail _ named.listed, named.opened⟩
    · simp only [epollAdd, if_neg added]
      rw [closeClient_eq, if_neg unlisted]
      exact ⟨held.found, held.state, held.buffer, held.listed, held.opened⟩

/-- Reading for another client leaves `c` alone. -/
theorem decryptData_attends (attends : s.Attends c fd state buf) (ne : other ≠ fd)
    (found : clientFind s.clients other = some i) (chunk : List UInt8) :
    Ends (fun t => t.Attends c fd state buf) (fun _ => True) (decryptData s i chunk) := by
  have apart := attends.apart ne found
  have received (b : Buffer packetMaxSize) : (s.received i b).Attends c fd state buf :=
    attends.modify_other ne found _ rfl
  refine decryptData_ends trivial (fun b _ => received b) fun b _ => ?_
  have handed : (s.handed i b).Attends c fd state buf :=
    ⟨(received b).found, (received b).state, (received b).buffer, (received b).listed,
      (received b).opened⟩
  have touched := analizePacket_touches (s.handed i b) i
  have kept := analizePacket_buffer apart (s.handed i b)
  have descriptors := analizePacket_descriptors (s.handed i b) i
  cases ended : analizePacket (s.handed i b) i with
  | error failed => trivial
  | ok t =>
    rw [ended] at touched kept descriptors
    have touched : Handled i (s.handed i b) t := touched
    have kept : (t.client c).decryptBuf = ((s.handed i b).client c).decryptBuf := kept
    have descriptors : SameDescriptors (s.handed i b) t := descriptors
    have theirs : ((s.handed i b).client i).fd ≠ fd := by
      rw [Server.handed_client, Server.received, Server.client_modify_self]
      exact (clientFind_some found).2 ▸ ne
    have far : (t.client i).answers fd = false := by
      apply Client.answers_of_ne
      rw [touched.fd]
      exact theirs
    have handled : t.Attends c fd state buf := {
      found := by
        rw [← handed.found]
        apply clientFind_congr
        intro j
        rcases touched.state j with ⟨state, -⟩ | ⟨here, -, -⟩
        · rw [Client.answers, Client.answers, state, touched.fd]
        · subst here
          rw [far, Client.answers_of_ne theirs]
      state := by
        rcases touched.state c with ⟨state, -⟩ | ⟨here, -, -⟩
        · rw [state, handed.state]
        · exact absurd here apart
      buffer := kept.trans handed.buffer
      listed := descriptors.epoll ▸ handed.listed
      opened := descriptors.openFds ▸ handed.opened }
    exact handled.modify _ apart far far

theorem attends_rule (ne : other ≠ fd) (deleted : Bool) :
    WriteRuleAt other deleted (fun s => s.Attends c fd state buf) fun _ => True where
  fail := fun _ _ _ _ => trivial
  drain := fun s i d attends drains =>
    attends.kept (by rw [drains.rest]) (by rw [drains.rest]) (by rw [drains.rest])
  close := fun s attends => attends.closeClient ne deleted

/-- An event that is not about `fd` leaves its client alone. -/
theorem step_attends (attends : s.Attends c fd state buf) (nonzero : fd ≠ 0) {e : Event}
    (apart : e.fd? ≠ some fd) : Ends (fun t => t.Attends c fd state buf) (fun _ => True) (step s e) := by
  have ne {other : Int} (same : e.fd? = some other) : other ≠ fd := by
    rintro rfl
    exact apart same
  cases e with
  | accept conn =>
    by_cases used : conn.fd ∈ s.openFds ∨ conn.fd ∈ s.epoll
    · simp only [step, if_pos used]
      exact attends
    · simp only [step, if_neg used]
      obtain ⟨fresh, unknown⟩ := not_or.mp used
      have differs : conn.fd ≠ fd := fun same => fresh (same ▸ attends.opened)
      exact (acceptOne_attends attends nonzero conn differs unknown).bind fun r kept => kept
  | handshake other =>
    show Server.Attends _ c fd state buf
    unfold completeHandshake
    cases found : clientFind s.clients other with
    | none => exact attends
    | some i =>
      dsimp only
      split
      · exact attends.modify_other (ne rfl) found _ rfl
      · exact attends
  | wantMore other bytes =>
    show Ends _ _ (sslWantMore s other bytes)
    unfold sslWantMore
    cases found : clientFind s.clients other with
    | none => exact attends
    | some i =>
      dsimp only
      have queued := queueAll_tls (s.client i) (bioPieces bytes.length bytes)
      cases ended : (bioPieces bytes.length bytes).foldlM secureQueueWrite (s.client i) with
      | error fault => trivial
      | ok d =>
        rw [ended] at queued
        have queued : (s.client i).SameButSecure d := queued
        exact attends.modify_other (ne rfl) found _ (by rw [queued.rest])
  | recv other chunk =>
    show Ends _ _ (readData s other chunk)
    unfold readData
    cases found : clientFind s.clients other with
    | none => trivial
    | some i =>
      dsimp only
      split
      · exact decryptData_attends attends (ne rfl) found chunk
      · exact attends
  | write other env => exact (attends_rule (ne rfl) env.deleted).writeData attends env rfl
  | close other deleted => exact attends.closeClient (ne rfl) deleted

end Attends

/-! The connection's own events -/

section Own

variable {s t : Server} {c : Slot} {fd : Int} {state : ClientState} {buf : Buffer packetMaxSize}
variable {packets : List Packet} {later : List UInt8}

namespace Server.Attends

theorem received (attends : s.Attends c fd state buf) (b : Buffer packetMaxSize) :
    (s.received c b).Attends c fd state b := by
  have here : (s.received c b).client c = { s.client c with decryptBuf := b } :=
    s.client_modify_self c _
  refine ⟨?_, by rw [here, attends.state], by rw [here], attends.listed, attends.opened⟩
  rw [← attends.found]
  apply clientFind_congr
  intro j
  by_cases same : j = c
  · subst same
    rw [here]
    rfl
  · rw [Server.received, Server.client_modify_of_ne _ _ same]

/-- Whoever has a packet handled stays registered. -/
theorem analizePacket (attends : s.Attends c fd state buf) (handled : analizePacket s c = .ok t) :
    (t.Attends c fd state (t.client c).decryptBuf ∨
      t.Attends c fd .complete (t.client c).decryptBuf) := by
  have touched := analizePacket_touches s c
  have descriptors := analizePacket_descriptors s c
  rw [handled] at touched descriptors
  have touched : Handled c s t := touched
  have descriptors : SameDescriptors s t := descriptors
  have listed : fd ∈ t.epoll := descriptors.epoll ▸ attends.listed
  have opened : fd ∈ t.openFds := descriptors.openFds ▸ attends.opened
  have found : clientFind t.clients fd = some c := by
    rw [← attends.found]
    apply clientFind_congr
    intro j
    rcases touched.state j with ⟨state, -⟩ | ⟨here, complete, -⟩
    · rw [Client.answers, Client.answers, state, touched.fd]
    · subst here
      simp [Client.answers, complete, touched.fd, attends.live]
  rcases touched.state c with ⟨state, -⟩ | ⟨-, complete, -⟩
  · exact .inl ⟨found, state.trans attends.state, rfl, listed, opened⟩
  · exact .inr ⟨found, complete, rfl, listed, opened⟩

end Server.Attends

/-- TLS is up in this state. -/
def ClientState.secured (state : ClientState) : Prop := state = .secure ∨ state = .complete

theorem Server.Attends.serves (attends : s.Attends c fd state buf) (secured : state.secured) :
    s.serves c fd :=
  ⟨attends.found, by simpa [Client.secured, attends.state, ClientState.secured] using secured⟩

/-- What `SSL_read` returns for the plaintext of one record: as much as it is
asked for, until nothing is left. -/
def sslReads (c : Slot) (fd : Int) : Nat → Server → List UInt8 → List Event
  | 0, _, _ => []
  | fuel + 1, s, plain =>
    if plain = [] then []
    else
      let chunk := plain.take (s.client c).decryptBuf.wanted.toNat
      .recv fd chunk :: match step s (.recv fd chunk) with
        | .ok t => sslReads c fd fuel t (plain.drop chunk.length)
        | .error _ => []

/-- A buffer in the middle of a packet asks for at least one byte. -/
theorem Buffer.Awaits.wants {stream : List UInt8} (awaits : buf.Awaits stream packets)
    (small : ∀ p ∈ packets, p.size ≤ transferDataSize) (left : stream ≠ []) : 0 < buf.wanted := by
  cases awaits with
  | idle len size empty => exact absurd empty left
  | amid holds rest =>
    rename_i p others
    have bound := small p (List.mem_cons_self ..)
    have sound := holds.sound (by
      simp only [hdrSize, packetMaxSize, transferDataSize] at bound ⊢
      omega)
    have size := holds.size
    have less := holds.less
    rw [sound.wanted_eq]
    by_cases header : buf.len < hdrSize
    · rw [if_pos header] at size
      omega
    · rw [if_neg header] at size
      omega

/-- TLS is up, and the buffer of `c` awaits these packets. -/
def Server.Awaits (s : Server) (c : Slot) (fd : Int) (stream : List UInt8)
    (packets : List Packet) : Prop :=
  ∃ state buf, s.Attends c fd state buf ∧ state.secured ∧ buf.Awaits stream packets

/-- One `SSL_read` completes a packet or brings it further. -/
theorem Server.Awaits.recv {chunk : List UInt8} (awaits : s.Awaits c fd (chunk ++ later) packets)
    (small : ∀ p ∈ packets, p.size ≤ transferDataSize)
    (readable : (s.client c).decryptBuf.readable chunk) (taken : step s (.recv fd chunk) = .ok t) :
    ∃ done rest, packets = done ++ rest ∧
      t.callsFor c = s.callsFor c ++ done.map Packet.wire ∧ t.Awaits c fd later rest := by
  obtain ⟨state, buf, attends, secured, waiting⟩ := awaits
  have serves := attends.serves secured
  have delivers := delivers_recv serves readable
  rw [attends.buffer] at readable
  rcases waiting.receive small readable with
    ⟨next, received, more⟩ | ⟨next, p, rest, received, rfl, wire, tail⟩
  · rw [← attends.buffer] at received readable
    have same := step_recv_more serves readable received
    obtain rfl : s.received c next = t := Except.ok.inj (same.symm.trans taken)
    refine ⟨[], packets, rfl, ?_, state, next, attends.received next, secured, more⟩
    exact (List.append_nil _).symm
  · rw [← attends.buffer] at received
    rw [received] at delivers
    have last := rewound_of_delivers delivers taken
    have call := step_calls delivers
    rw [taken] at call
    have handed : (s.handed c next).Attends c fd state next :=
      ⟨(attends.received next).found, (attends.received next).state,
        (attends.received next).buffer, attends.listed, attends.opened⟩
    refine ⟨[p], rest, rfl, ?_, ?_⟩
    · rw [callsFor_append call, if_pos rfl, handed.buffer, wire]
      rfl
    · rw [step_delivers delivers] at taken
      cases handled : Quickshare.analizePacket (s.handed c next) c with
      | error failed =>
        rw [handled] at taken
        cases taken
      | ok u =>
        rw [handled] at taken
        obtain rfl : u.rewound c = t := Except.ok.inj taken
        have waiting : ((u.rewound c).client c).decryptBuf.Awaits later rest :=
          tail ▸ .start rest last.1 last.2
        have here : ((u.rewound c).client c).decryptBuf =
            { (u.client c).decryptBuf with len := 0, size := 0 } := by
          rw [Server.rewound, Server.client_modify_self]
        rw [here] at waiting
        rcases handed.analizePacket handled with kept | registered
        · exact ⟨state, _, kept.received _, secured, waiting⟩
        · exact ⟨.complete, _, registered.received _, .inr rfl, waiting⟩

/-- After a record its packets have been handled, in order. -/
theorem Server.Awaits.sslReads {fuel : Nat} {plain : List UInt8}
    (awaits : s.Awaits c fd (plain ++ later) packets)
    (small : ∀ p ∈ packets, p.size ≤ transferDataSize) (enough : plain.length ≤ fuel)
    (ended : run step s (sslReads c fd fuel s plain) = .ok t) :
    ∃ done rest, packets = done ++ rest ∧
      t.callsFor c = s.callsFor c ++ done.map Packet.wire ∧ t.Awaits c fd later rest := by
  induction fuel generalizing s plain packets with
  | zero =>
    have empty : plain = [] := List.length_eq_zero_iff.mp (by omega)
    subst empty
    cases ended
    exact ⟨[], packets, rfl, (List.append_nil _).symm, awaits⟩
  | succ fuel ih =>
    rw [Quickshare.sslReads] at ended
    by_cases empty : plain = []
    · subst empty
      rw [if_pos rfl] at ended
      cases ended
      exact ⟨[], packets, rfl, (List.append_nil _).symm, awaits⟩
    · rw [if_neg empty] at ended
      dsimp only at ended
      have wants : 0 < (s.client c).decryptBuf.wanted := by
        obtain ⟨state, buf, attends, -, waiting⟩ := awaits
        rw [attends.buffer]
        exact waiting.wants small (by simp [empty])
      generalize cut : (s.client c).decryptBuf.wanted.toNat = n at ended
      have positive : 0 < plain.length := List.length_pos_iff.mpr empty
      have length : (plain.take n).length = min n plain.length := List.length_take
      have readable : (s.client c).decryptBuf.readable (plain.take n) :=
        ⟨by omega, by rw [length]; omega⟩
      obtain ⟨u, taken, remaining⟩ := run_cons_ok ended
      rw [taken] at remaining
      dsimp only at remaining
      have split : plain ++ later = plain.take n ++ (plain.drop n ++ later) := by
        rw [← List.append_assoc, List.take_append_drop]
      have dropped : plain.drop (plain.take n).length = plain.drop n := by
        rw [length]
        by_cases fits : n ≤ plain.length
        · rw [Nat.min_eq_left fits]
        · rw [List.drop_of_length_le (by omega), List.drop_of_length_le (by omega)]
      rw [dropped] at remaining
      obtain ⟨done, rest, rfl, first, later'⟩ := (split ▸ awaits).recv small readable taken
      have fewer : (plain.drop n).length ≤ fuel := by
        rw [List.length_drop]
        omega
      obtain ⟨more, left, rfl, second, final⟩ :=
        ih later' (fun p member => small p (List.mem_append_right _ member)) fewer remaining
      refine ⟨done ++ more, left, by rw [List.append_assoc], ?_, final⟩
      rw [second, first, List.map_append, List.append_assoc]

end Own

/-! One connection in `server_loop` -/

/-- What TLS makes of the bytes of one connection, as long as it reports no error. -/
structure Tls where
  /-- Whether these bytes finish the handshake. -/
  finished : List UInt8 → Bool
  /-- The plaintexts of the data records that are whole, oldest first. -/
  records : List UInt8 → List (List UInt8)
  /-- Whether these bytes end with the peer's `close_notify`. -/
  ended : List UInt8 → Bool
  finished_nil : finished [] = false
  ended_nil : ended [] = false
  finished_append : ∀ first second, finished first = true → finished (first ++ second) = true
  records_append : ∀ first second, records first <+: records (first ++ second)
  records_unfinished : ∀ bytes, finished bytes = false → records bytes = []
  records_ended : ∀ first second, ended first = true → records (first ++ second) = records first

/-- All data in these bytes. -/
def Tls.plain (tls : Tls) (bytes : List UInt8) : List UInt8 := (tls.records bytes).flatten

/-- The server, and the socket of one connection. -/
structure Loop where
  server : Server
  /-- Sent by the peer, but not arrived. -/
  coming : List UInt8
  /-- Arrived, but not read. -/
  unread : List UInt8
  /-- Read so far. -/
  got : List UInt8
  /-- The end of what the peer sends has arrived. -/
  hungUp : Bool

inductive SocketEvent where
  /-- The next bytes arrive. -/
  | arrive (count : Nat)
  /-- The peer's end of stream arrives, after all its bytes. -/
  | hangUp
  /-- `epoll_wait` reports `EPOLLERR`, `EPOLLHUP` or `EPOLLRDHUP`, whatever else with it. -/
  | reportHup
  /-- It reports `EPOLLIN`; `ssl_want_more` then moves these bytes. -/
  | reportIn (replies : List UInt8)
  /-- It reports `EPOLLOUT`, alone or after `EPOLLIN`. -/
  | reportOut (env : WriteEnv)
  /-- Anything the server does for another connection. -/
  | other (e : Event)

/-- What one `read` asks for. -/
def readMax : Nat := packetMaxSize / 4

namespace Loop

/-- The server handles these events. -/
def play (l : Loop) (events : List Event) : Run Loop := do
  let server ← run step l.server events
  return { l with server }

/-- `decrypt_data` on the records that are whole. -/
def decrypt (c : Slot) (fd : Int) : Loop → List (List UInt8) → Run Loop
  | l, [] => .ok l
  | l, plain :: rest => do
    let l ← l.play (sslReads c fd plain.length l.server plain)
    decrypt c fd l rest

/-- `complete_handshake`, `before` being the bytes read earlier. -/
def shake (tls : Tls) (fd : Int) (l : Loop) (before : List UInt8) : Run Loop :=
  if tls.finished before = false ∧ tls.finished l.got = true then l.play [.handshake fd] else .ok l

/-- `decode_packet` once the bytes are in the read BIO. -/
def decode (tls : Tls) (c : Slot) (fd : Int) (l : Loop) (before replies : List UInt8) :
    Run Loop := do
  let l ← l.shake tls fd before
  let l ← decrypt c fd l ((tls.records l.got).drop (tls.records before).length)
  if tls.ended l.got then l.play [.close fd true] else l.play [.wantMore fd replies]

/-- `read_data`: nothing to read is the end of the stream or no news at all. -/
def read (tls : Tls) (c : Slot) (fd : Int) (l : Loop) (replies : List UInt8) : Run Loop :=
  if l.unread = [] then
    if l.hungUp then l.play [.close fd true] else .ok l
  else
    decode tls c fd { l with
      unread := l.unread.drop readMax
      got := l.got ++ l.unread.take readMax } l.got replies

/-- What `server_loop` does about the connection, as long as it is registered. -/
def step (tls : Tls) (c : Slot) (fd : Int) (l : Loop) : SocketEvent → Run Loop
  | .arrive count => .ok { l with
      unread := l.unread ++ l.coming.take count
      coming := l.coming.drop count }
  | .hangUp => .ok { l with hungUp := l.hungUp || l.coming.isEmpty }
  | .reportHup => if l.hungUp ∧ fd ∈ l.server.epoll then l.play [.close fd true] else .ok l
  | .reportIn replies => if fd ∈ l.server.epoll then l.read tls c fd replies else .ok l
  | .reportOut env => if fd ∈ l.server.epoll then l.play [.write fd env] else .ok l
  | .other e => if fd ∈ l.server.epoll ∧ e.fd? ≠ some fd then l.play [e] else .ok l

end Loop

section Follow

variable {tls : Tls} {s t : Server} {c : Slot} {fd : Int} {state : ClientState}
variable {buf : Buffer packetMaxSize} {packets : List Packet} {stream later bytes : List UInt8}
variable {earlier : List (List UInt8)} {l l' : Loop}

namespace Server.Attends

theorem handshake (attends : s.Attends c fd .connected buf) :
    (completeHandshake s fd).Attends c fd .secure buf := by
  simp only [completeHandshake, attends.found, if_pos attends.state]
  have here : (s.modify c fun client => { client with state := .secure }).client c =
      { s.client c with state := .secure } := s.client_modify_self c _
  refine ⟨?_, by rw [here], by rw [here, attends.buffer], attends.listed, attends.opened⟩
  rw [← attends.found]
  apply clientFind_congr
  intro j
  by_cases same : j = c
  · subst same
    rw [here]
    simp [Client.answers, attends.state]
  · rw [Server.client_modify_of_ne _ _ same]

theorem wantMore (attends : s.Attends c fd state buf) (replies : List UInt8) :
    Ends (fun t => t.Attends c fd state buf) (fun _ => True) (sslWantMore s fd replies) := by
  simp only [sslWantMore, attends.found]
  have queued := queueAll_tls (s.client c) (bioPieces replies.length replies)
  cases ended : (bioPieces replies.length replies).foldlM secureQueueWrite (s.client c) with
  | error fault => trivial
  | ok d =>
    rw [ended] at queued
    have queued : (s.client c).SameButSecure d := queued
    exact attends.kept (by rw [queued.rest]) (by rw [queued.rest]) (by rw [queued.rest])

/-- A write that works leaves the client where it is. -/
theorem write (attends : s.Attends c fd state buf) {env : WriteEnv}
    (works : ¬ writeFails (s.client c) env) :
    Ends (fun t => t.Attends c fd state buf) (fun _ => True) (writeData s fd env) := by
  simp only [writeData, attends.found]
  rcases writeLoop_cases ((s.client c).msgQueue.count + 1) s c fd .ok env with
    ⟨fault, t, -, ended⟩ | ⟨d, -, written, ended⟩ | ⟨d, failed, -⟩
  · rw [ended]
    trivial
  · rw [ended]
    exact attends.kept (by rw [written.rest]) (by rw [written.rest]) (by rw [written.rest])
  · exact absurd (by rw [writeFails, failed]; rfl) works

end Server.Attends

/-- The packets still to be handled for the connection are those of `stream`; `earlier`
ones were handled for clients in the same slot. -/
structure Loop.Owes (c : Slot) (fd : Int) (earlier : List (List UInt8)) (packets : List Packet)
    (l : Loop) (ready : ClientState → Prop) (stream : List UInt8) : Prop where
  nodup : l.server.epoll.Nodup
  rest : ∃ state buf done rest, l.server.Attends c fd state buf ∧ ready state ∧
    packets = done ++ rest ∧ l.server.callsFor c = earlier ++ done.map Packet.wire ∧
      buf.Awaits stream rest

/-- The same socket, with the server run further. -/
structure Loop.SameSocket (l l' : Loop) : Prop where
  coming : l'.coming = l.coming
  unread : l'.unread = l.unread
  got : l'.got = l.got
  hungUp : l'.hungUp = l.hungUp

namespace Loop

theorem SameSocket.refl (l : Loop) : SameSocket l l := ⟨rfl, rfl, rfl, rfl⟩

theorem SameSocket.trans {l'' : Loop} (first : SameSocket l l') (second : SameSocket l' l'') :
    SameSocket l l'' :=
  ⟨second.coming.trans first.coming, second.unread.trans first.unread,
    second.got.trans first.got, second.hungUp.trans first.hungUp⟩

/-- An event that is no read for `c` handles nothing for it. -/
theorem play_quiet {e : Event} (found : clientFind l.server.clients fd = some c)
    (other : ∀ chunk, e ≠ .recv fd chunk) (played : l.play [e] = .ok l') :
    ∃ t, Quickshare.step l.server e = .ok t ∧ t.callsFor c = l.server.callsFor c ∧
      l' = { l with server := t } := by
  have calls := step_callsFor_other found other
  unfold play at played
  cases taken : Quickshare.step l.server e with
  | error failed =>
    simp [run, taken, bind, Except.bind] at played
  | ok t =>
    rw [taken] at calls
    simp only [run, taken, bind, Except.bind, pure, Except.pure] at played
    cases played
    exact ⟨t, rfl, calls, rfl⟩

theorem Owes.quiet {ready : ClientState → Prop} {e : Event} (owes : l.Owes c fd earlier packets ready stream)
    (other : ∀ chunk, e ≠ .recv fd chunk) (played : l.play [e] = .ok l')
    {after : ClientState → Prop}
    (keep : ∀ state buf, ready state → l.server.Attends c fd state buf →
      Ends (fun t => ∃ state, after state ∧ t.Attends c fd state buf) (fun _ => True)
        (Quickshare.step l.server e)) :
    l'.Owes c fd earlier packets after stream ∧ l.SameSocket l' := by
  obtain ⟨state, buf, done, rest, attends, first, split, handled, awaits⟩ := owes.rest
  obtain ⟨t, taken, calls, rfl⟩ := play_quiet attends.found other played
  have nodup := step_epoll_nodup owes.nodup e
  have kept := keep state buf first attends
  rw [taken] at nodup kept
  obtain ⟨state', second, attends'⟩ := kept
  exact ⟨⟨nodup, state', buf, done, rest, attends', second, split, calls.trans handled, awaits⟩,
    rfl, rfl, rfl, rfl⟩

theorem play_ok {events : List Event} (played : l.play events = .ok l') :
    ∃ t, run Quickshare.step l.server events = .ok t ∧ l' = { l with server := t } := by
  unfold play at played
  cases ran : run Quickshare.step l.server events with
  | error failed =>
    rw [ran] at played
    cases played
  | ok t =>
    rw [ran] at played
    cases played
    exact ⟨t, rfl, rfl⟩

/-- Records that are whole hand over their packets. -/
theorem Owes.decrypt {records : List (List UInt8)} (small : ∀ p ∈ packets, p.size ≤ transferDataSize)
    (owes : l.Owes c fd earlier packets ClientState.secured (records.flatten ++ later))
    (ended : decrypt c fd l records = .ok l') :
    l'.Owes c fd earlier packets ClientState.secured later ∧ l.SameSocket l' := by
  induction records generalizing l with
  | nil =>
    cases ended
    exact ⟨owes, .refl _⟩
  | cons plain others ih =>
    simp only [Loop.decrypt, bind, Except.bind] at ended
    cases played : l.play (sslReads c fd plain.length l.server plain) with
    | error failed =>
      rw [played] at ended
      cases ended
    | ok mid =>
      rw [played] at ended
      obtain ⟨t, ran, rfl⟩ := play_ok played
      obtain ⟨state, buf, done, rest, attends, secured, split, handled, awaits⟩ := owes.rest
      rw [List.flatten_cons, List.append_assoc] at awaits
      have waiting : l.server.Awaits c fd (plain ++ (others.flatten ++ later)) rest :=
        ⟨state, buf, attends, secured, awaits⟩
      have fits : ∀ p ∈ rest, p.size ≤ transferDataSize := fun p member =>
        small p (split ▸ List.mem_append_right done member)
      obtain ⟨more, left, rfl, fresh, state', buf', attends', secured', awaits'⟩ :=
        waiting.sslReads fits (Nat.le_refl _) ran
      have next : Loop.Owes c fd earlier packets { l with server := t }
          ClientState.secured (others.flatten ++ later) := {
        nodup := run_epoll_nodup owes.nodup ran
        rest := ⟨state', buf', done ++ more, left, attends', secured',
          by rw [split, List.append_assoc],
          by rw [fresh, handled, List.map_append, List.append_assoc], awaits'⟩ }
      obtain ⟨final, socket⟩ := ih next ended
      exact ⟨final, socket.coming, socket.unread, socket.got, socket.hungUp⟩

/-- A close that the server survives takes the descriptor out of `epoll`. -/
theorem Owes.close {ready : ClientState → Prop} (owes : l.Owes c fd earlier packets ready stream)
    (played : l.play [.close fd true] = .ok l') :
    fd ∉ l'.server.epoll ∧ l'.server.callsFor c = l.server.callsFor c ∧ l.SameSocket l' := by
  obtain ⟨state, buf, done, rest, attends, -⟩ := owes.rest
  have other : ∀ chunk, Event.close fd true ≠ .recv fd chunk := fun chunk same => by cases same
  obtain ⟨t, taken, calls, rfl⟩ := play_quiet attends.found other played
  have gone := closeClient_unlisted owes.nodup fd true
  have closed : closeClient l.server fd true = .ok t := taken
  rw [closed] at gone
  exact ⟨fun listed => gone ⟨rfl, listed⟩, calls, rfl, rfl, rfl, rfl⟩

/-- When nothing is left to come, all packets have been handled. -/
theorem Owes.finished {ready : ClientState → Prop} (owes : l.Owes c fd earlier packets ready []) :
    l.server.callsFor c = earlier ++ packets.map Packet.wire := by
  obtain ⟨state, buf, done, rest, -, -, split, handled, awaits⟩ := owes.rest
  obtain ⟨rfl, -⟩ := awaits.finished
  rw [split, List.append_nil, handled]

/-- When all packets have been handled, nothing is left to come. -/
theorem Owes.nothing {ready : ClientState → Prop} (owes : l.Owes c fd earlier packets ready stream)
    (all : l.server.callsFor c = earlier ++ packets.map Packet.wire) : stream = [] := by
  obtain ⟨state, buf, done, rest, -, -, split, handled, awaits⟩ := owes.rest
  rw [handled, split, List.map_append] at all
  have empty : rest = [] := by simpa using all
  subst empty
  cases awaits with
  | idle len size none => exact none

end Loop

/-- Data that has come stays the first of all data. -/
theorem Tls.plain_prefix (tls : Tls) (first second : List UInt8) :
    tls.plain first <+: tls.plain (first ++ second) := by
  obtain ⟨rest, split⟩ := tls.records_append first second
  exact ⟨rest.flatten, by rw [Tls.plain, Tls.plain, ← split, List.flatten_append]⟩

/-- What a read adds is first of what was still to come. -/
theorem Tls.plain_drop (tls : Tls) (before chunk rest : List UInt8) :
    (tls.plain (before ++ chunk ++ rest)).drop (tls.plain before).length =
      ((tls.records (before ++ chunk)).drop (tls.records before).length).flatten ++
        (tls.plain (before ++ chunk ++ rest)).drop (tls.plain (before ++ chunk)).length := by
  obtain ⟨fresh, first⟩ := tls.records_append before chunk
  obtain ⟨later, second⟩ := tls.plain_prefix (before ++ chunk) rest
  have whole : tls.plain (before ++ chunk) = tls.plain before ++ fresh.flatten := by
    rw [Tls.plain, ← first, List.flatten_append, Tls.plain]
  rw [← second, whole, ← first, List.drop_left, List.append_assoc, List.drop_left,
    ← List.append_assoc, List.drop_left]

/-- The state of the client of a connection that has brought these bytes. -/
def Tls.stage (tls : Tls) (got : List UInt8) (state : ClientState) : Prop :=
  if tls.finished got = true then state.secured else state = .connected

/-- Where a registered connection stands: what it has read is handled. -/
structure Loop.Stands (tls : Tls) (c : Slot) (fd : Int) (earlier : List (List UInt8))
    (packets : List Packet) (bytes : List UInt8) (l : Loop) : Prop where
  owes : l.Owes c fd earlier packets (tls.stage l.got) ((tls.plain bytes).drop (tls.plain l.got).length)
  open' : tls.ended l.got = false

/-- The connection is registered and stands where its bytes say, or it has been
closed with all packets handled. -/
def Loop.Keeps (tls : Tls) (c : Slot) (fd : Int) (earlier : List (List UInt8))
    (packets : List Packet) (bytes : List UInt8) (l : Loop) : Prop :=
  l.Stands tls c fd earlier packets bytes ∨
    fd ∉ l.server.epoll ∧ l.server.callsFor c = earlier ++ packets.map Packet.wire

namespace Loop

/-- The handshake, if these bytes finish it. -/
theorem Stands.handshake {before : List UInt8}
    (owes : l.Owes c fd earlier packets (tls.stage before) stream) (extends' : before <+: l.got)
    (shaken : l.shake tls fd before = .ok l') :
    l'.Owes c fd earlier packets (tls.stage l.got) stream ∧ l.SameSocket l' := by
  unfold shake at shaken
  split at shaken
  · rename_i fresh
    refine owes.quiet (fun chunk same => by cases same) shaken fun state buf ready attends => ?_
    rw [Tls.stage, if_neg (by simp [fresh.1])] at ready
    subst ready
    refine ⟨.secure, ?_, attends.handshake⟩
    rw [Tls.stage, if_pos fresh.2]
    exact .inl rfl
  · rename_i other
    cases shaken
    have same : tls.stage l.got = tls.stage before := by
      obtain ⟨chunk, split⟩ := extends'
      funext state
      cases first : tls.finished before with
      | true =>
        have later := tls.finished_append before chunk first
        rw [split] at later
        rw [Tls.stage, Tls.stage, first, later]
      | false =>
        have later : tls.finished l.got = false := by simpa [first] using other
        rw [Tls.stage, Tls.stage, first, later]
    exact ⟨same ▸ owes, .refl l⟩

/-- The data that the handshake lets through. -/
theorem Stands.records {before got : List UInt8} {records : List (List UInt8)}
    (small : ∀ p ∈ packets, p.size ≤ transferDataSize)
    (same : records = (tls.records got).drop (tls.records before).length)
    (owes : l.Owes c fd earlier packets (tls.stage got) (records.flatten ++ later))
    (ended : decrypt c fd l records = .ok l') :
    l'.Owes c fd earlier packets (tls.stage got) later ∧ l.SameSocket l' := by
  cases finished : tls.finished got with
  | true =>
    have stage : tls.stage got = ClientState.secured := by
      funext state
      rw [Tls.stage, if_pos finished]
    rw [stage] at owes ⊢
    exact owes.decrypt small ended
  | false =>
    have empty : records = [] := by rw [same, tls.records_unfinished got finished, List.drop_nil]
    subst empty
    cases ended
    exact ⟨owes, .refl _⟩

theorem Stands.decode {before chunk rest replies : List UInt8}
    (small : ∀ p ∈ packets, p.size ≤ transferDataSize) (got : l.got = before ++ chunk)
    (owes : l.Owes c fd earlier packets (tls.stage before)
      ((tls.plain (l.got ++ rest)).drop (tls.plain before).length))
    (ended : l.decode tls c fd before replies = .ok l') :
    l'.Keeps tls c fd earlier packets (l.got ++ rest) ∧ l.SameSocket l' := by
  simp only [Loop.decode, bind, Except.bind] at ended
  have fresh := tls.plain_drop before chunk rest
  rw [← got] at fresh
  rw [fresh] at owes
  cases first : l.shake tls fd before with
  | error failed =>
    rw [first] at ended
    cases ended
  | ok shaken =>
    rw [first] at ended
    obtain ⟨owes, socket⟩ := Stands.handshake owes ⟨chunk, got.symm⟩ first
    dsimp only at ended
    rw [socket.got] at ended
    cases second : Loop.decrypt c fd shaken
        ((tls.records l.got).drop (tls.records before).length) with
    | error failed =>
      rw [second] at ended
      cases ended
    | ok read =>
      rw [second] at ended
      obtain ⟨owes, more⟩ := Stands.records small rfl owes second
      have socket := socket.trans more
      dsimp only at ended
      rw [socket.got] at ended
      cases notified : tls.ended l.got with
      | true =>
        rw [if_pos notified] at ended
        obtain ⟨gone, handled, last⟩ := owes.close ended
        have nothing : (tls.plain (l.got ++ rest)).drop (tls.plain l.got).length = [] := by
          have same : tls.plain (l.got ++ rest) = tls.plain l.got := by
            rw [Tls.plain, Tls.plain, tls.records_ended l.got rest notified]
          rw [same, List.drop_length]
        rw [nothing] at owes
        exact ⟨.inr ⟨gone, handled.trans owes.finished⟩, socket.trans last⟩
      | false =>
        rw [if_neg (by simp [notified])] at ended
        have replied : l'.Owes c fd earlier packets (tls.stage l.got)
            ((tls.plain (l.got ++ rest)).drop (tls.plain l.got).length) ∧ read.SameSocket l' :=
          owes.quiet (fun chunk same => by cases same) ended fun state buf ready attends =>
            (attends.wantMore replies).mono (fun t _ kept => ⟨state, ready, kept⟩) fun _ _ => trivial
        have socket := socket.trans replied.2
        refine ⟨.inl ⟨?_, ?_⟩, socket⟩
        · rw [socket.got]
          exact replied.1
        · rw [socket.got]
          exact notified

theorem Stands.read {replies : List UInt8} (small : ∀ p ∈ packets, p.size ≤ transferDataSize)
    (stands : l.Stands tls c fd earlier packets (l.got ++ l.unread ++ l.coming))
    (last : l.hungUp = true → l.coming = []) (ended : l.read tls c fd replies = .ok l') :
    l'.Keeps tls c fd earlier packets (l.got ++ l.unread ++ l.coming) ∧
      l'.got ++ l'.unread = l.got ++ l.unread ∧ l'.coming = l.coming ∧ l'.hungUp = l.hungUp := by
  unfold Loop.read at ended
  by_cases empty : l.unread = []
  · rw [if_pos empty] at ended
    by_cases hungUp : l.hungUp = true
    · rw [if_pos hungUp] at ended
      obtain ⟨gone, handled, socket⟩ := stands.owes.close ended
      have owes := stands.owes
      rw [empty, last hungUp, List.append_nil, List.append_nil, List.drop_length] at owes
      exact ⟨.inr ⟨gone, handled.trans owes.finished⟩, by rw [socket.got, socket.unread],
        socket.coming, socket.hungUp⟩
    · rw [if_neg hungUp] at ended
      cases ended
      exact ⟨.inl stands, rfl, rfl, rfl⟩
  · rw [if_neg empty] at ended
    have split : l.got ++ l.unread.take readMax ++ (l.unread.drop readMax ++ l.coming) =
        l.got ++ l.unread ++ l.coming := by
      rw [← List.append_assoc, List.append_assoc l.got, List.take_append_drop]
    have owes := stands.owes
    rw [← split] at owes ⊢
    obtain ⟨keeps, socket⟩ := Stands.decode (l := { l with
      unread := l.unread.drop readMax
      got := l.got ++ l.unread.take readMax }) small rfl ⟨owes.nodup, owes.rest⟩ ended
    refine ⟨keeps, ?_, socket.coming, socket.hungUp⟩
    rw [socket.got, socket.unread, List.append_assoc, List.take_append_drop]

end Loop

/-- What is known of the socket, and of the connection while it is registered. -/
structure Loop.Follows (tls : Tls) (c : Slot) (fd : Int) (earlier : List (List UInt8))
    (packets : List Packet) (bytes : List UInt8) (l : Loop) : Prop where
  all : l.got ++ l.unread ++ l.coming = bytes
  hungUp : l.hungUp = true → l.coming = []
  stands : fd ∈ l.server.epoll → l.Stands tls c fd earlier packets bytes

/-- No write to this client fails. -/
def Loop.writesWork (c : Slot) (l : Loop) : SocketEvent → Prop
  | .reportOut env => ¬ writeFails (l.server.client c) env
  | _ => True

/-- If this event closes the client, all its packets have been passed to `analize_packet`,
in order, after the `earlier` ones of its slot. -/
def Loop.closesLast (tls : Tls) (c : Slot) (fd : Int) (earlier : List (List UInt8))
    (packets : List Packet) (l : Loop) (e : SocketEvent) : Prop :=
  ∀ l', l.step tls c fd e = .ok l' → fd ∈ l.server.epoll → fd ∉ l'.server.epoll →
    l'.server.callsFor c = earlier ++ packets.map Packet.wire

/-- A hang-up the server survives is reported once all data has been read. -/
def Loop.readsFirst (tls : Tls) (c : Slot) (fd : Int) (l : Loop) : SocketEvent → Prop
  | .reportHup => (∃ l', l.step tls c fd .reportHup = .ok l') → l.hungUp = true →
    fd ∈ l.server.epoll → tls.plain (l.got ++ l.unread) = tls.plain l.got
  | _ => True

namespace Loop

theorem Follows.keeps (follows : l.Follows tls c fd earlier packets bytes) (socket : l.SameSocket l')
    (stands : l'.Stands tls c fd earlier packets bytes) : l'.Follows tls c fd earlier packets bytes where
  all := by rw [socket.got, socket.unread, socket.coming, follows.all]
  hungUp := by
    rw [socket.hungUp, socket.coming]
    exact follows.hungUp
  stands := fun _ => stands

/-- An event that handles no packet of the connection keeps what is known. -/
theorem Follows.quiet {e : Event} (follows : l.Follows tls c fd earlier packets bytes)
    (listed : fd ∈ l.server.epoll) (other : ∀ chunk, e ≠ .recv fd chunk)
    (keep : ∀ state buf, l.server.Attends c fd state buf →
      Ends (fun t => t.Attends c fd state buf) (fun _ => True) (Quickshare.step l.server e))
    (played : l.play [e] = .ok l') :
    l'.Follows tls c fd earlier packets bytes ∧ fd ∈ l'.server.epoll := by
  have stands := follows.stands listed
  have kept : l'.Owes c fd earlier packets (tls.stage l.got)
      ((tls.plain bytes).drop (tls.plain l.got).length) ∧ l.SameSocket l' :=
    stands.owes.quiet other played fun state buf ready attends =>
      (keep state buf attends).mono (fun t _ kept => ⟨state, ready, kept⟩) fun _ _ => trivial
  obtain ⟨owes, socket⟩ := kept
  rw [← socket.got] at owes
  refine ⟨follows.keeps socket ⟨owes, socket.got ▸ stands.open'⟩, ?_⟩
  obtain ⟨state, buf, done, rest, attends, -⟩ := owes.rest
  exact attends.listed

/-- Every event but a reported hang-up keeps what is known, and closes the client
only at its end. -/
theorem Follows.step (follows : l.Follows tls c fd earlier packets bytes)
    (small : ∀ p ∈ packets, p.size ≤ transferDataSize) (nonzero : fd ≠ 0) {e : SocketEvent}
    (works : l.writesWork c e) (other : e ≠ .reportHup) (taken : l.step tls c fd e = .ok l') :
    l'.Follows tls c fd earlier packets bytes ∧ (fd ∈ l.server.epoll → fd ∉ l'.server.epoll →
      l'.server.callsFor c = earlier ++ packets.map Packet.wire) := by
  have moved {next : Loop} (server : next.server = l.server) (got : next.got = l.got)
      (listed : fd ∈ next.server.epoll) :
      next.Stands tls c fd earlier packets bytes := by
    have stands := follows.stands (server ▸ listed)
    refine ⟨⟨server ▸ stands.owes.nodup, ?_⟩, got ▸ stands.open'⟩
    rw [server, got]
    exact stands.owes.rest
  have still {next : Loop} (server : next.server = l.server) :
      fd ∈ l.server.epoll → fd ∉ next.server.epoll →
        next.server.callsFor c = earlier ++ packets.map Packet.wire :=
    fun listed gone => absurd (server ▸ listed) gone
  cases e with
  | arrive count =>
    cases taken
    refine ⟨⟨?_, fun hungUp => ?_, moved rfl rfl⟩, still rfl⟩
    · rw [← follows.all]
      simp
    · simp [follows.hungUp hungUp]
  | hangUp =>
    cases taken
    refine ⟨⟨follows.all, fun hungUp => ?_, moved rfl rfl⟩, still rfl⟩
    rcases Bool.or_eq_true_iff.mp hungUp with before | empty
    · exact follows.hungUp before
    · simpa using empty
  | reportHup => exact absurd rfl other
  | reportIn replies =>
    simp only [Loop.step] at taken
    by_cases listed : fd ∈ l.server.epoll
    · rw [if_pos listed] at taken
      have stands := follows.stands listed
      rw [← follows.all] at stands ⊢
      obtain ⟨keeps, read, coming, hungUp⟩ := Stands.read small stands follows.hungUp taken
      have all : l'.got ++ l'.unread ++ l'.coming = l.got ++ l.unread ++ l.coming := by
        rw [read, coming]
      have last : l'.hungUp = true → l'.coming = [] := by
        rw [hungUp, coming]
        exact follows.hungUp
      rcases keeps with stands | ⟨gone, handled⟩
      · refine ⟨⟨all, last, fun _ => stands⟩, fun _ gone => absurd ?_ gone⟩
        obtain ⟨state, buf, done, rest, attends, -⟩ := stands.owes.rest
        exact attends.listed
      · exact ⟨⟨all, last, fun listed => absurd listed gone⟩, fun _ _ => handled⟩
    · rw [if_neg listed] at taken
      cases taken
      exact ⟨follows, still rfl⟩
  | reportOut env =>
    simp only [Loop.step] at taken
    by_cases listed : fd ∈ l.server.epoll
    · rw [if_pos listed] at taken
      have apart : ∀ chunk, Event.write fd env ≠ .recv fd chunk := fun chunk same => by cases same
      obtain ⟨kept, here⟩ := follows.quiet (e := .write fd env) listed apart
        (fun state buf attends => attends.write works) taken
      exact ⟨kept, fun _ gone => absurd here gone⟩
    · rw [if_neg listed] at taken
      cases taken
      exact ⟨follows, still rfl⟩
  | other e =>
    simp only [Loop.step] at taken
    by_cases here : fd ∈ l.server.epoll ∧ e.fd? ≠ some fd
    · rw [if_pos here] at taken
      have apart : ∀ chunk, e ≠ .recv fd chunk := fun chunk same => here.2 (same ▸ rfl)
      obtain ⟨kept, there⟩ := follows.quiet here.1 apart
        (fun state buf attends => step_attends attends nonzero here.2) taken
      exact ⟨kept, fun _ gone => absurd there gone⟩
    · rw [if_neg here] at taken
      cases taken
      exact ⟨follows, still rfl⟩

/-- A reported hang-up closes the client, with all its packets passed on exactly
if all data has been read. -/
theorem Follows.hup (follows : l.Follows tls c fd earlier packets bytes)
    (taken : l.step tls c fd .reportHup = .ok l') :
    l'.Follows tls c fd earlier packets bytes ∧ (fd ∈ l.server.epoll → l.hungUp = true →
      fd ∉ l'.server.epoll ∧ (l'.server.callsFor c = earlier ++ packets.map Packet.wire ↔
        tls.plain (l.got ++ l.unread) = tls.plain l.got)) := by
  simp only [Loop.step] at taken
  by_cases here : l.hungUp = true ∧ fd ∈ l.server.epoll
  · rw [if_pos here] at taken
    have owes := (follows.stands here.2).owes
    obtain ⟨gone, handled, socket⟩ := owes.close taken
    refine ⟨⟨?_, ?_, fun listed => absurd listed gone⟩, fun _ _ => ⟨gone, ?_⟩⟩
    · rw [socket.got, socket.unread, socket.coming, follows.all]
    · rw [socket.hungUp, socket.coming]
      exact follows.hungUp
    · have all : l.got ++ l.unread = bytes := by
        rw [← follows.all, follows.hungUp here.1, List.append_nil]
      obtain ⟨later, split⟩ := tls.plain_prefix l.got l.unread
      rw [handled, all]
      rw [all] at split
      rw [← split, List.drop_left] at owes
      constructor
      · intro every
        rw [← split, owes.nothing every, List.append_nil]
      · intro same
        have none : later = [] := by simpa [← split] using same
        subst none
        exact owes.finished
  · rw [if_neg here] at taken
    cases taken
    exact ⟨follows, fun listed hungUp => absurd ⟨hungUp, listed⟩ here⟩

end Loop

/-- `accept_client` is about to make the connection the client `c`: its descriptor
is in use nowhere and not that of the standard input. -/
structure Server.Free (s : Server) (c : Slot) (conn : Connection) : Prop where
  nodup : s.epoll.Nodup
  unknown : conn.fd ∉ s.epoll
  unused : clientFind s.clients conn.fd = none
  empty : (s.client c).state = .empty
  nonzero : conn.fd ≠ 0

/-- The peer will send these bytes. -/
def Loop.start (s : Server) (bytes : List UInt8) : Loop := ⟨s, bytes, [], [], false⟩

theorem Server.Free.attends {conn : Connection} (free : s.Free c conn) :
    (s.accepted c conn).Attends c conn.fd .connected ((s.accepted c conn).client c).decryptBuf where
  found := by
    have here : (((s.accepted c conn).clients.list c).state ≠ .empty ∧
        ((s.accepted c conn).clients.list c).fd = conn.fd) := by
      have self := s.accepted_self c conn
      rw [Server.client] at self
      rw [self]
      exact ⟨by simp [clientConfigure], rfl⟩
    have some : ∃ i, clientFind (s.accepted c conn).clients conn.fd = some i :=
      ClientList.search_isSome c (by simpa using here)
    obtain ⟨i, found⟩ := some
    obtain rfl : i = c := by
      by_contra ne
      have kept : (s.accepted c conn).clients.list i = s.clients.list i := s.accepted_of_ne conn ne
      have live := clientFind_some found
      rw [kept] at live
      have absent := ClientList.search_none free.unused i
      simp [live] at absent
    exact found
  state := by
    rw [Server.accepted_self]
    rfl
  buffer := rfl
  listed := List.mem_cons_self ..
  opened := List.mem_cons_self ..

theorem Server.Free.follows {conn : Connection} (free : s.Free c conn)
    (stream : tls.plain bytes = (packets.map Packet.wire).flatten) :
    (Loop.start (s.accepted c conn) bytes).Follows tls c conn.fd (s.callsFor c) packets bytes where
  all := rfl
  hungUp := fun hungUp => by cases hungUp
  stands := fun _ => by
    have reset : ((s.accepted c conn).client c).decryptBuf.len = 0 ∧
        ((s.accepted c conn).client c).decryptBuf.size = 0 := by
      rw [Server.accepted_self]
      exact ⟨rfl, rfl⟩
    refine ⟨⟨List.nodup_cons.mpr ⟨free.unknown, free.nodup⟩, .connected, _, [], packets,
      free.attends, ?_, rfl, (List.append_nil _).symm, ?_⟩, tls.ended_nil⟩
    · show tls.stage [] .connected
      rw [Tls.stage, if_neg (by simp [tls.finished_nil])]
    · have none : tls.plain [] = [] := by
        rw [Tls.plain, tls.records_unfinished [] tls.finished_nil]
        rfl
      show Buffer.Awaits _ ((tls.plain bytes).drop (tls.plain []).length) packets
      rw [none, stream]
      exact .start packets reset.1 reset.2

instance (tls : Tls) (c : Slot) (fd : Int) (l : Loop) :
    (e : SocketEvent) → Decidable (l.readsFirst tls c fd e)
  | .reportHup =>
    have survived : (l.step tls c fd .reportHup).isOk = true ↔
        ∃ l', l.step tls c fd .reportHup = .ok l' := by
      cases l.step tls c fd .reportHup with
      | ok l' => exact iff_of_true rfl ⟨l', rfl⟩
      | error failed => exact iff_of_false (fun done => by cases done) fun ⟨_, same⟩ => by cases same
    have : Decidable (∃ l', l.step tls c fd .reportHup = .ok l') := decidable_of_iff _ survived
    inferInstanceAs (Decidable ((∃ l', l.step tls c fd .reportHup = .ok l') → l.hungUp = true →
      fd ∈ l.server.epoll → tls.plain (l.got ++ l.unread) = tls.plain l.got))
  | .arrive _ | .hangUp | .reportIn _ | .reportOut _ | .other _ => isTrue trivial

/-- However bytes arrive and events are reported, a client whose writes work is
closed with all its packets passed on, in order, exactly if every hang-up is
reported once all data has been read. -/
theorem closes_last_iff (tls : Tls) {conn : Connection} {events : List SocketEvent}
    (small : ∀ p ∈ packets, p.size ≤ transferDataSize)
    (stream : tls.plain bytes = (packets.map Packet.wire).flatten)
    (free : s.Free c conn)
    (works : Guarded (Loop.step tls c conn.fd) (Loop.writesWork c)
      (Loop.start (s.accepted c conn) bytes) events) :
    Guarded (Loop.step tls c conn.fd) (Loop.closesLast tls c conn.fd (s.callsFor c) packets)
        (Loop.start (s.accepted c conn) bytes) events ↔
      Guarded (Loop.step tls c conn.fd) (Loop.readsFirst tls c conn.fd)
        (Loop.start (s.accepted c conn) bytes) events := by
  refine guarded_iff_of_assumed works (free.follows stream)
    (fun l e l' follows works taken => ?_) fun l e follows works => ?_
  · by_cases hup : e = .reportHup
    · subst hup
      exact (follows.hup taken).1
    · exact (follows.step small free.nonzero works hup taken).1
  · by_cases hup : e = .reportHup
    · subst hup
      constructor
      · rintro closes ⟨l', taken⟩ hungUp listed
        obtain ⟨gone, same⟩ := (follows.hup taken).2 listed hungUp
        exact same.mp (closes l' taken listed gone)
      · intro reads l' taken listed gone
        by_cases hungUp : l.hungUp = true
        · exact ((follows.hup taken).2 listed hungUp).2.mpr (reads ⟨l', taken⟩ hungUp listed)
        · simp only [Loop.step, if_neg (fun both : l.hungUp = true ∧ _ => hungUp both.1)] at taken
          cases taken
          exact absurd listed gone
    · refine iff_of_true (fun l' taken => (follows.step small free.nonzero works hup taken).2) ?_
      cases e with
      | reportHup => exact absurd rfl hup
      | _ => trivial

end Follow

/-- One byte of handshake, then every byte a record. -/
def Tls.bare : Tls where
  finished bytes := bytes ≠ []
  records bytes := bytes.tail.map fun byte => [byte]
  ended _ := false
  finished_nil := rfl
  ended_nil := rfl
  finished_append := by
    intro first second some
    cases first with
    | nil => cases some
    | cons byte rest => rfl
  records_append := by
    intro first second
    cases first with
    | nil => exact List.nil_prefix
    | cons byte rest => exact ⟨second.map fun byte => [byte], by simp⟩
  records_unfinished := by
    intro bytes none
    cases bytes with
    | nil => rfl
    | cons byte rest => cases none
  records_ended := fun _ _ never => by cases never

def caller : Connection := ⟨4, 100, .plain, true, true⟩

/-- Eight bytes of data packet. -/
def bareData : Packet := Packet.packetHdr .transferData 0 (Mem.zero packetMaxSize)

theorem caller_free : (Server.init .fresh).Free 0 caller := by
  constructor
  · exact List.nodup_nil
  · exact List.not_mem_nil
  · decide +kernel
  · decide +kernel
  · decide

theorem bareData_stream : Tls.bare.plain (0 :: bareData.wire) = ([bareData].map Packet.wire).flatten := by
  decide +kernel

/-- All bytes are read before the hang-up is reported. -/
def readInTime : List SocketEvent := [.arrive 9, .reportIn [], .hangUp, .reportHup]

/-- The client is closed with its packet passed on, and nothing is left unread. -/
theorem closes_last_iff_read :
    let l := Loop.start ((Server.init .fresh).accepted 0 caller) (0 :: bareData.wire)
    Guarded (Loop.step .bare 0 4)
        (Loop.closesLast .bare 0 4 ((Server.init .fresh).callsFor 0) [bareData]) l readInTime ∧
      Guarded (Loop.step .bare 0 4) (Loop.readsFirst .bare 0 4) l readInTime ∧
      ∃ l', run (Loop.step .bare 0 4) l readInTime = .ok l' ∧ 4 ∉ l'.server.epoll ∧
        l'.server.callsFor 0 = [bareData.wire] := by
  intro l
  have small : ∀ p ∈ [bareData], p.size ≤ transferDataSize := by decide +kernel
  have works : Guarded (Loop.step .bare 0 4) (Loop.writesWork 0) l readInTime :=
    ⟨trivial, fun _ _ => ⟨trivial, fun _ _ => ⟨trivial, fun _ _ => .single trivial⟩⟩⟩
  have reads : Guarded (Loop.step .bare 0 4) (Loop.readsFirst .bare 0 4) l readInTime := by
    decide +kernel
  have closed : Run.passes
      (fun l' => 4 ∉ l'.server.epoll ∧ l'.server.callsFor 0 = [bareData.wire])
      (run (Loop.step .bare 0 4) l readInTime) = true := by
    decide +kernel
  obtain ⟨l', reached, gone⟩ := Run.passes_ok closed
  exact ⟨(closes_last_iff .bare small bareData_stream caller_free works).mpr reads, reads,
    l', reached, of_decide_eq_true gone⟩

/-- The hang-up is reported together with the data, and nothing is read. -/
theorem closes_last_fails :
    ¬ Guarded (Loop.step .bare 0 4)
      (Loop.closesLast .bare 0 4 ((Server.init .fresh).callsFor 0) [bareData])
      (Loop.start ((Server.init .fresh).accepted 0 caller) (0 :: bareData.wire))
      [.arrive 9, .hangUp, .reportHup] := by
  intro held
  have arrived : Run.passes (fun l => 4 ∈ l.server.epoll ∧ Run.passes (fun l' => 4 ∉ l'.server.epoll ∧
      l'.server.callsFor 0 = []) (l.step .bare 0 4 .reportHup) = true)
      (run (Loop.step .bare 0 4) (Loop.start ((Server.init .fresh).accepted 0 caller)
        (0 :: bareData.wire)) [.arrive 9, .hangUp]) = true := by
    decide +kernel
  obtain ⟨l, reached, checked⟩ := Run.passes_ok arrived
  obtain ⟨listed, closed⟩ := of_decide_eq_true checked
  obtain ⟨l', taken, last⟩ := Run.passes_ok closed
  obtain ⟨gone, silent⟩ := of_decide_eq_true last
  have closes : Loop.closesLast .bare 0 4 ((Server.init .fresh).callsFor 0) [bareData] l
    .reportHup := held.at reached
  have all := closes l' taken listed gone
  rw [silent] at all
  cases all

end Quickshare
