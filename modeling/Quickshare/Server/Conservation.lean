import Quickshare.Server.WriteLoop

/-! Output conservation. Bytes leave a client in the order in which its packets
were queued: those the socket took, those sealed and unsent, and the records of
the packets still queued always make up the records of all packets. -/

namespace Quickshare

open Runs Bytes

/-- The records of `plains`, the first of which is the `n`-th. -/
def records (record : Nat → List UInt8 → List UInt8) : Nat → List (List UInt8) → List UInt8
  | _, [] => []
  | n, plain :: rest => record n plain ++ records record (n + 1) rest

theorem records_append (record : Nat → List UInt8 → List UInt8) (n : Nat)
    (first second : List (List UInt8)) : records record n (first ++ second) =
      records record n first ++ records record (n + first.length) second := by
  induction first generalizing n with
  | nil => rfl
  | cons plain rest ih =>
    simp only [List.cons_append, records, ih, List.length_cons, List.append_assoc]
    rw [Nat.add_assoc n 1, Nat.add_comm 1]

namespace Client

/-- Sealed bytes the socket has not taken. -/
def unwritten (c : Client) : List UInt8 :=
  c.secure.encryptedBuf.data.read 0 c.secure.encryptedBuf.len

/-- What the packets still queued will be sealed from. -/
def queued (c : Client) : List (List UInt8) := c.msgQueue.contents.map Packet.wire

/-- Everything on its way to the peer of `c`, oldest first. -/
def outflow (c : Client) (ssl : Ssl) : List UInt8 :=
  c.secure.wire ++ c.unwritten ++ records ssl.record ssl.sealed.length c.queued

/-- `c` has the TLS object `ssl`, a queue and an output buffer in order. -/
structure Flows (c : Client) (ssl : Ssl) : Prop where
  tls : c.secure.ssl = some ssl
  queue : c.msgQueue.Valid
  fits : c.secure.encryptedBuf.len ≤ 2 * packetMaxSize

/-- `d` with `last` is `c` with `ssl` some work later: nothing was lost or added. -/
structure Conserves (c d : Client) (ssl last : Ssl) : Prop where
  flows : d.Flows last
  record : last.record = ssl.record
  outflow : d.outflow last = c.outflow ssl
  count : last.sealed.length + d.msgQueue.count = ssl.sealed.length + c.msgQueue.count

variable {c d e : Client} {ssl mid last : Ssl}

theorem Conserves.refl (flows : c.Flows ssl) : c.Conserves c ssl ssl := ⟨flows, rfl, rfl, rfl⟩

theorem Conserves.trans (first : c.Conserves d ssl mid) (second : d.Conserves e mid last) :
    c.Conserves e ssl last where
  flows := second.flows
  record := second.record.trans first.record
  outflow := second.outflow.trans first.outflow
  count := second.count.trans first.count

theorem acted_conserves (flows : c.Flows ssl) (act : WriteAct) :
    c.Conserves (c.acted act) ssl ssl :=
  ⟨⟨flows.tls, flows.queue, flows.fits⟩, rfl, rfl, rfl⟩

/-- `write` moves bytes from the front of the buffer to the socket. -/
theorem written_conserves {n : Nat} (flows : c.Flows ssl) (less : n ≤ c.secure.encryptedBuf.len) :
    c.Conserves (c.written n) ssl ssl := by
  have fits := flows.fits
  refine ⟨⟨flows.tls, flows.queue, ?_⟩, rfl, ?_, rfl⟩
  · have shorter : (c.written n).secure.encryptedBuf.len = c.secure.encryptedBuf.len - n := rfl
    omega
  · obtain ⟨left, whole⟩ := Nat.exists_eq_add_of_le less
    have moved : (c.written n).unwritten = c.secure.encryptedBuf.data.read n left := by
      have rest : c.secure.encryptedBuf.len - n = left := by omega
      let kept := c.secure.encryptedBuf.data.read n left
      have back : (c.secure.encryptedBuf.data.write 0 kept).read 0 kept.length = kept :=
        c.secure.encryptedBuf.data.read_write kept (by simp [kept]; omega)
      simpa [unwritten, written, rest, kept] using back
    have split : c.unwritten = c.secure.encryptedBuf.data.read 0 n ++
        c.secure.encryptedBuf.data.read n left := by
      rw [unwritten, whole, Mem.read_add, Nat.zero_add]
    have wire : (c.written n).secure.wire =
        c.secure.wire ++ c.secure.encryptedBuf.data.read 0 n := rfl
    have queued : (c.written n).queued = c.queued := rfl
    rw [Client.outflow, Client.outflow, moved, split, wire, queued]
    simp only [List.append_assoc]

/-- No `write` fails. -/
def cleanWrites (writes : List SysWrite) : Prop :=
  ∀ result ∈ writes, result ≠ .failed ∧ result ≠ .wrote 0

theorem writeBytes_conserves {writes : List SysWrite} (flows : c.Flows ssl)
    (clean : cleanWrites writes) : (writeBytes writes c).1 ≠ .error ∧
      c.Conserves (writeBytes writes c).2.1 ssl ssl ∧ cleanWrites (writeBytes writes c).2.2 := by
  induction writes generalizing c with
  | nil =>
    unfold writeBytes
    split
    · exact ⟨by simp, .refl flows, clean⟩
    · exact ⟨by simp, acted_conserves flows .write, clean⟩
  | cons result rest ih =>
    have later : cleanWrites rest := fun result member => clean result (List.mem_cons_of_mem _ member)
    have here := clean result (List.mem_cons_self ..)
    unfold writeBytes
    split
    · exact ⟨by simp, .refl flows, clean⟩
    · cases result with
      | wouldBlock => exact ⟨by simp, acted_conserves flows .write, later⟩
      | failed => exact absurd rfl here.1
      | wrote n =>
        have some : n ≠ 0 := by
          rintro rfl
          exact here.2 rfl
        dsimp only
        rw [if_neg some]
        have acted := acted_conserves flows .write
        have moved := acted.trans (written_conserves acted.flows
          (Nat.min_le_right n c.secure.encryptedBuf.len))
        obtain ⟨fine, rest, left⟩ := ih moved.flows later
        exact ⟨fine, moved.trans rest, left⟩

/-- Queuing pieces appends them to the buffer and changes nothing else. -/
structure Grows (c d : Client) (bytes : List UInt8) : Prop where
  unwritten : d.unwritten = c.unwritten ++ bytes
  wire : d.secure.wire = c.secure.wire
  tls : d.secure.ssl = c.secure.ssl
  queue : d.msgQueue = c.msgQueue
  fits : d.secure.encryptedBuf.len ≤ 2 * packetMaxSize

theorem secureQueueWrite_grows (bytes : List UInt8) (done : secureQueueWrite c bytes = .ok d) :
    c.Grows d bytes := by
  simp only [secureQueueWrite] at done
  split at done
  · rename_i room
    cases done
    refine ⟨?_, rfl, rfl, rfl, Nat.le_of_lt room⟩
    let buf := c.secure.encryptedBuf
    have old : (buf.data.write buf.len bytes).read 0 buf.len = buf.data.read 0 buf.len :=
      buf.data.read_write_apart bytes (.inl (by omega))
    have new : (buf.data.write buf.len bytes).read buf.len bytes.length = bytes :=
      buf.data.read_write bytes (Nat.le_of_lt room)
    show (buf.data.write buf.len bytes).read 0 (buf.len + bytes.length) = _
    rw [Mem.read_add, old, Nat.zero_add, new]
    rfl
  · cases done

theorem queueAll_grows (pieces : List (List UInt8)) (fits : c.secure.encryptedBuf.len ≤ 2 * packetMaxSize)
    (done : pieces.foldlM secureQueueWrite c = .ok d) : c.Grows d pieces.flatten := by
  induction pieces generalizing c with
  | nil =>
    cases done
    exact ⟨by simp, rfl, rfl, rfl, fits⟩
  | cons piece rest ih =>
    rw [List.foldlM_cons] at done
    cases first : secureQueueWrite c piece with
    | error fault => simp [first, bind, Except.bind] at done
    | ok e =>
      have one := secureQueueWrite_grows piece first
      have more := ih one.fits (by simpa [first, bind, Except.bind] using done)
      exact ⟨by rw [more.unwritten, one.unwritten, List.flatten_cons, List.append_assoc],
        more.wire.trans one.wire, more.tls.trans one.tls, more.queue.trans one.queue, more.fits⟩

/-- Where TLS takes a whole packet its record goes to the end of the buffer. -/
theorem encrypt_grows {p : Packet} {result : Bool × Client × List SslWrite} (flows : c.Flows ssl)
    (done : encrypt p c [] = .ok result) : ∃ d, result = (true, d, []) ∧
      d.Flows { ssl with sealed := ssl.sealed ++ [p.wire] } ∧
      d.unwritten = c.unwritten ++ ssl.record ssl.sealed.length p.wire ∧
      d.secure.wire = c.secure.wire ∧ d.msgQueue = c.msgQueue := by
  have held : p.wire ≠ [] := List.ne_nil_of_length_pos (by simp [Packet.wire, hdrSize])
  have acted : (c.acted .encrypt).secure.ssl = some ssl := flows.tls
  let last : Ssl := { ssl with sealed := ssl.sealed ++ [p.wire] }
  let start : Client := { c.acted .encrypt with
    secure := { (c.acted .encrypt).secure with ssl := some last } }
  let record := ssl.record ssl.sealed.length p.wire
  unfold encrypt at done
  split at done
  · cases done
  · simp only [encryptLoop, if_neg held, sslWrote, acted, drainBio, bind, Except.bind] at done
    cases queued : (bioPieces record.length record).foldlM secureQueueWrite start with
    | error fault => simp [queued, record, start, last] at done
    | ok d =>
      have grows := queueAll_grows _ (c := start) flows.fits queued
      rw [bioPieces_flatten _ _ (Nat.le_refl _)] at grows
      have same : (true, d, []) = result := by
        simpa [queued, record, start, last, pure, Except.pure] using done
      exact ⟨d, same.symm, ⟨grows.tls, grows.queue ▸ flows.queue, grows.fits⟩, grows.unwritten,
        grows.wire, grows.queue⟩

/-- Sealing the oldest packet moves its record from the queue to the buffer. -/
theorem sealNext_conserves {result : Bool × Client × List SslWrite} (flows : c.Flows ssl)
    (done : sealNext c [] = .ok result) :
    ∃ d last, result = (true, d, []) ∧ c.Conserves d ssl last := by
  unfold sealNext at done
  cases taken : c.msgQueue.dequeue with
  | none =>
    simp only [taken] at done
    cases done
    exact ⟨c, ssl, rfl, .refl flows⟩
  | some found =>
    obtain ⟨p, q⟩ := found
    simp only [taken] at done
    have next : Client.Flows { c.acted .dequeue with msgQueue := q } ssl :=
      ⟨flows.tls, flows.queue.dequeue taken, flows.fits⟩
    obtain ⟨d, rfl, flows', unwritten, wire, queue⟩ := encrypt_grows next done
    have front : c.queued = p.wire :: d.queued := by
      simp only [Client.queued, queue, flows.queue.dequeue_contents taken, List.map_cons]
    refine ⟨d, _, rfl, flows', rfl, ?_, ?_⟩
    · rw [outflow, outflow, front, unwritten, wire]
      simp only [records, List.length_append, List.length_singleton, List.append_assoc]
      rfl
    · have count := Queue.dequeue_count taken
      simp only [queue, List.length_append, List.length_singleton]
      omega

/-- What `write_data` does to its client conserves what flows out. -/
theorem writeClient_conserves (fuel : Nat) {state : WriteResult} {env : WriteEnv}
    {result : Bool × Client} (flows : c.Flows ssl) (fine : state ≠ .error)
    (clean : cleanWrites env.writes) (whole : env.ssl = [])
    (done : writeClient fuel c state env = .ok result) :
    ∃ d last, result = (true, d) ∧ c.Conserves d ssl last := by
  induction fuel generalizing c ssl state env with
  | zero =>
    cases done
    exact ⟨c, ssl, rfl, .refl flows⟩
  | succ fuel ih =>
    simp only [writeClient, whole] at done
    have written : (if c.secure.encryptedBuf.len > 0 then writeBytes env.writes c
        else (state, c, env.writes)).1 ≠ .error ∧
      c.Conserves (if c.secure.encryptedBuf.len > 0 then writeBytes env.writes c
        else (state, c, env.writes)).2.1 ssl ssl ∧
      cleanWrites (if c.secure.encryptedBuf.len > 0 then writeBytes env.writes c
        else (state, c, env.writes)).2.2 := by
      split
      · exact writeBytes_conserves flows clean
      · exact ⟨fine, .refl flows, clean⟩
    generalize (if c.secure.encryptedBuf.len > 0 then writeBytes env.writes c
      else (state, c, env.writes)) = out at written done
    obtain ⟨state, d, writes⟩ := out
    obtain ⟨fine, kept, clean⟩ := written
    dsimp only at fine kept clean done
    rw [if_neg fine] at done
    cases sealed : sealNext d [] with
    | error fault => simp [sealed, bind, Except.bind] at done
    | ok next =>
      obtain ⟨e, last, rfl, more⟩ := sealNext_conserves kept.flows sealed
      have both := kept.trans more
      simp only [sealed, bind, Except.bind, if_true] at done
      split at done
      · obtain ⟨d', last', same, later⟩ := ih both.flows fine clean rfl done
        exact ⟨d', last', same, both.trans later⟩
      · cases done
        exact ⟨e, last, rfl, both⟩

end Client

/-- What can happen to the output of one client. -/
inductive Output where
  | send (p : Packet)
  | write (env : WriteEnv)

/-- A packet for `i` is queued, or its socket is writable. -/
def outputStep (i : Slot) (fd : Int) (s : Server) : Output → Run Server
  | .send p => s.send i fun _ => p
  | .write env => writeData s fd env

/-- No `write` fails, and `SSL_write` takes every packet whole. -/
def Output.Clean : Output → Prop
  | .send _ => True
  | .write env => Client.cleanWrites env.writes ∧ env.ssl = []

instance : (output : Output) → Decidable output.Clean
  | .send _ => isTrue trivial
  | .write env => inferInstanceAs
      (Decidable ((∀ result ∈ env.writes, result ≠ .failed ∧ result ≠ .wrote 0) ∧ env.ssl = []))

/-- The packet queued, if it is one. -/
def Output.queues : Output → List (List UInt8)
  | .send p => [p.wire]
  | .write _ => []

section Server

variable {s t : Server} {i : Slot} {fd : Int} {ssl : Ssl}

/-- Queuing a packet adds its record to what flows out. -/
theorem send_outflow {p : Packet} (flows : (s.client i).Flows ssl)
    (sent : s.send i (fun _ => p) = .ok t) : (t.client i).Flows ssl ∧
      (t.client i).outflow ssl = (s.client i).outflow ssl ++
        ssl.record (ssl.sealed.length + (s.client i).msgQueue.count) p.wire ∧
      (t.client i).msgQueue.count = (s.client i).msgQueue.count + 1 ∧ SameClients s t := by
  rw [Server.send_eq] at sent
  split at sent
  · cases sent
  · rename_i room
    cases sent
    have self : (s.pushed i fun _ => p).client i =
        { s.client i with msgQueue := (s.client i).msgQueue.pushed fun _ => p } :=
      s.client_modify_self i fun c => { c with msgQueue := c.msgQueue.pushed fun _ => p }
    have taken : (s.client i).msgQueue.enqueue = some ((s.client i).msgQueue.head,
        { (s.client i).msgQueue with
          head := ((s.client i).msgQueue.head + 1) &&& ((s.client i).msgQueue.len - 1)
          count := (s.client i).msgQueue.count + 1 }) := if_neg room
    have contents : ((s.client i).msgQueue.pushed fun _ => p).contents =
        (s.client i).msgQueue.contents ++ [p] := flows.queue.enqueue_contents taken fun _ => p
    rw [self]
    have valid : ((s.client i).msgQueue.pushed fun _ => p).Valid :=
      (flows.queue.enqueue taken).fill (s.client i).msgQueue.head fun _ => p
    refine ⟨⟨flows.tls, valid, flows.fits⟩, ?_, rfl, s.pushed_same i _⟩
    simp only [Client.outflow, Client.queued, contents, List.map_append, List.map_singleton,
      records_append, List.length_map, Queue.contents_length, records, List.append_nil]
    simp only [Client.unwritten, List.append_assoc]

/-- One step adds the record of the packet it queues, if it queues one. -/
theorem outputStep_outflow {output : Output} (found : clientFind s.clients fd = some i)
    (flows : (s.client i).Flows ssl) (clean : output.Clean)
    (taken : outputStep i fd s output = .ok t) :
    ∃ last, clientFind t.clients fd = some i ∧ (t.client i).Flows last ∧ last.record = ssl.record ∧
      (t.client i).outflow last = (s.client i).outflow ssl ++
        records ssl.record (ssl.sealed.length + (s.client i).msgQueue.count) output.queues ∧
      last.sealed.length + (t.client i).msgQueue.count =
        ssl.sealed.length + (s.client i).msgQueue.count + output.queues.length := by
  cases output with
  | send p =>
    obtain ⟨flows', outflow, count, same⟩ := send_outflow flows taken
    refine ⟨ssl, (same.find fd).trans found, flows', rfl, ?_, ?_⟩
    · simpa [Output.queues, records] using outflow
    · simp only [Output.queues, List.length_singleton]
      omega
  | write env =>
    obtain ⟨clean, whole⟩ := clean
    have ok : WriteResult.ok ≠ .error := by decide
    simp only [outputStep, writeData, found] at taken
    rcases writeLoop_cases ((s.client i).msgQueue.count + 1) s i fd .ok env with
      ⟨fault, u, -, ended⟩ | ⟨d, done, written, ended⟩ | ⟨d, failed, -, -⟩
    · rw [ended] at taken
      cases taken
    · rw [ended] at taken
      cases taken
      obtain ⟨d', last, same, conserves⟩ :=
        Client.writeClient_conserves _ flows ok clean whole done
      cases same
      have self : (s.modify i fun _ => d).client i = d := s.client_modify_self i _
      rw [self]
      refine ⟨last, (written.seats.find fd).trans found, conserves.flows, conserves.record, ?_, ?_⟩
      · simpa [Output.queues, records] using conserves.outflow
      · simpa [Output.queues] using conserves.count
    · obtain ⟨d', last, same, -⟩ :=
        Client.writeClient_conserves _ flows ok clean whole failed
      cases same

/-- Whatever the order of packets queued and of full, partial and blocked
writes, what the socket took, what is sealed and what is queued make up what was
there before and the records of the packets queued since. -/
theorem output_conserved {outputs : List Output} (found : clientFind s.clients fd = some i)
    (flows : (s.client i).Flows ssl) (clean : ∀ output ∈ outputs, output.Clean)
    (ended : run (outputStep i fd) s outputs = .ok t) :
    ∃ last, (t.client i).secure.ssl = some last ∧ (t.client i).outflow last =
      (s.client i).outflow ssl ++
        records ssl.record (ssl.sealed.length + (s.client i).msgQueue.count)
          (outputs.flatMap Output.queues) := by
  induction outputs generalizing s ssl with
  | nil =>
    cases ended
    exact ⟨ssl, flows.tls, by simp [records]⟩
  | cons output rest ih =>
    obtain ⟨u, taken, remaining⟩ := run_cons_ok ended
    obtain ⟨mid, found', flows', record, outflow, count⟩ :=
      outputStep_outflow found flows (clean output (List.mem_cons_self ..)) taken
    obtain ⟨last, tls, total⟩ := ih found' flows'
      (fun output member => clean output (List.mem_cons_of_mem _ member)) remaining
    refine ⟨last, tls, ?_⟩
    rw [total, outflow, record, count, List.flatMap_cons, records_append, List.append_assoc]

end Server

def okPacket : Packet := .packetHdr .serverOk 0 (Mem.zero packetMaxSize)

def denyPacket : Packet := .packetHdr .serverDeny 0 (Mem.zero packetMaxSize)

/-- Three packets of eight bytes. The socket blocks after three bytes of the
first, and after two bytes of the second. -/
def threePackets : List Output :=
  [.send okPacket, .write ⟨[.wrote 3, .wouldBlock], [], true⟩, .send denyPacket, .send okPacket,
    .write ⟨[.wrote 1, .wrote 4, .wrote 2, .wouldBlock], [], true⟩]

/-- Every byte of the three packets is on its way, the first ten of them at the socket. -/
theorem output_conserved_pieces :
    let s := Run.state (run step (Server.init .fresh) (connects 4 100))
    ∃ t last, run (outputStep 0 4) s threePackets = .ok t ∧ (t.client 0).secure.ssl = some last ∧
      (t.client 0).outflow last = okPacket.wire ++ denyPacket.wire ++ okPacket.wire ∧
      (t.client 0).secure.wire = okPacket.wire ++ denyPacket.wire.take 2 := by
  intro s
  have checked : Run.passes
      (fun t => (t.client 0).secure.wire = okPacket.wire ++ denyPacket.wire.take 2)
      (run (outputStep 0 4) s threePackets) = true := by
    decide +kernel
  obtain ⟨t, ended, wire⟩ := Run.passes_ok checked
  have found : clientFind s.clients 4 = some 0 := by decide +kernel
  have flows : (s.client 0).Flows .plain := by
    refine ⟨by rfl, ⟨⟨4, by rfl⟩, by decide +kernel, by decide +kernel, by decide +kernel⟩,
      by decide +kernel⟩
  have clean : ∀ output ∈ threePackets, output.Clean := by decide
  obtain ⟨last, tls, outflow⟩ := output_conserved found flows clean ended
  have queued : (s.client 0).outflow .plain ++
      records Ssl.plain.record (Ssl.plain.sealed.length + (s.client 0).msgQueue.count)
        (threePackets.flatMap Output.queues) =
      okPacket.wire ++ denyPacket.wire ++ okPacket.wire := by decide +kernel
  exact ⟨t, last, ended, tls, outflow.trans queued, by simpa using wire⟩

end Quickshare
