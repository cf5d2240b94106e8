import Quickshare.Server.Framing
import Quickshare.System.Service

/-! Runs written as what is done in them: users ask, clients work, and packets that are
on their way are read. -/

namespace Quickshare

open Bytes Runs

namespace World

variable {w w' : World} {n : Nat} {c : Slot} {fd : Int} {p : Packet} {parcel : Parcel}
  {rest : List Parcel}

/-! The server reads a packet -/

/-- The server has read the header of `p` from `fd`, which is all of it so far. -/
def headed (w : World) (n : Nat) (fd : Int) (c : Slot) (p : Packet) : Prop :=
  w.server.serves c fd ∧ w.seat c = n ∧ (w.server.client c).decryptBuf.len = hdrSize ∧
    (w.server.client c).decryptBuf.size = p.size ∧
    (w.server.client c).decryptBuf.data.read 0 hdrSize = p.read 0 hdrSize ∧
    0 < p.size ∧ p.size ≤ transferDataSize

instance (w : World) (n : Nat) (fd : Int) (c : Slot) (p : Packet) : Decidable (w.headed n fd c p) :=
  inferInstanceAs (Decidable (_ ∧ _))

/-- The server handles the next packet of the process `n`, which leaves `rest`. -/
def handles (w : World) (n : Nat) (e : Quickshare.Event) (source : List UInt8) (rest : List Parcel) :
    Except Fault World :=
  match Quickshare.step w.server e with
  | .error (fault, _) => .error fault
  | .ok s => .ok { w.served s source with up := Function.update w.up n rest }

/-- What follows the header of a packet completes it. -/
theorem step_body (next : w.up n = parcel :: rest) (headed : w.headed n fd c parcel.packet) :
    w.step (.server (.recv fd (parcel.packet.wire.drop hdrSize))) =
      w.handles n (.recv fd (parcel.packet.wire.drop hdrSize)) parcel.source rest := by
  obtain ⟨serves, rfl, len, size, data, some, most⟩ := headed
  have small : hdrSize + parcel.packet.size ≤ packetMaxSize := by
    simp only [hdrSize, packetMaxSize, transferDataSize] at most ⊢
    omega
  have holds : (w.server.client c).decryptBuf.Holds parcel.packet :=
    ⟨by rw [len, data], by rw [len, size]; rfl, by rw [len]; omega⟩
  have length : (parcel.packet.wire.drop hdrSize).length = parcel.packet.size := by
    simp [Packet.wire]
  have readable : (w.server.client c).decryptBuf.readable (parcel.packet.wire.drop hdrSize) := by
    refine ⟨by omega, ?_⟩
    rw [(holds.sound small).wanted_eq, length, len, size]
    omega
  have bytes : parcel.packet.wire.drop hdrSize = parcel.packet.read
      (w.server.client c).decryptBuf.len (parcel.packet.wire.drop hdrSize).length := by
    rw [length, len, Packet.wire, Mem.read_drop, Nat.zero_add]
  rcases holds.receive small readable bytes with ⟨buf, -, more, at'⟩ | ⟨buf, whole, wire, -⟩
  · have less := more.less
    omega
  · have delivers := delivers_recv serves readable
    rw [whole] at delivers
    have same : ((w.server.handed c buf).client c).decryptBuf.packet.wire = parcel.packet.wire := by
      rw [Server.handed_client, Server.received, Server.client_modify_self]
      exact wire
    simp only [World.step, World.serve, delivers, next, if_pos same]
    rfl

/-- The process `n` handles the next packet of the server, which leaves `rest`. -/
def takes (w : World) (n : Nat) (parcel : Parcel) (rest : List Parcel) : World :=
  match (w.managers n).step (.packet .opening parcel.packet) with
  | .error _ => w
  | .ok m => { w with
      managers := Function.update w.managers n m
      down := Function.update w.down n rest
      offered := if parcel.packet.type? = some .transferRequest
        then Function.update w.offered n
          (Function.update (w.offered n) parcel.packet.tId parcel.source)
        else w.offered }

theorem receive_takes (next : w.down n = parcel :: rest) :
    w.receive n .opening parcel.packet = w.takes n parcel rest := by
  cases taken : (w.managers n).step (.packet .opening parcel.packet) with
  | error _ => simp only [World.receive, World.takes, next, if_true, taken]
  | ok m => simp only [World.receive, World.takes, next, if_true, taken]

/-! What is allowed is decidable -/

instance (w : World) (t : TransferId) (n : Nat) : Decidable ((w.exchange t).side n).Blank :=
  decidable_of_iff (((w.exchange t).side n).host.isNone ∧ ((w.exchange t).side n).recv.isNone ∧
      ((w.exchange t).side n).up.isEmpty ∧ ((w.exchange t).side n).down.isEmpty)
    ⟨fun ⟨host, recv, up, down⟩ => ⟨Option.isNone_iff_eq_none.mp host, Option.isNone_iff_eq_none.mp recv,
        List.isEmpty_iff.mp up, List.isEmpty_iff.mp down⟩,
      fun blank => ⟨Option.isNone_iff_eq_none.mpr blank.host, Option.isNone_iff_eq_none.mpr blank.recv,
        List.isEmpty_iff.mpr blank.up, List.isEmpty_iff.mpr blank.down⟩⟩

-- `all` looks at the one id there is, where the bound would be tried on every 64-bit one
instance (w : World) (e : Quickshare.Event) : Decidable (w.freshTransfer e) :=
  decidable_of_iff (∀ x ∈ w.server.delivers e, x.2.granted x.1 →
      (nextRowid (x.2.db.tables.transfers.map TransferRow.transferId)).all fun t =>
        ∀ i, w.server.Live i → ((w.exchange t).side (w.seat i)).Blank)
    ⟨fun all c s delivers granted t given => of_decide_eq_true
        ((Option.all_eq_true _ _).mp (all (c, s) delivers granted) t given),
      fun all x delivers granted => (Option.all_eq_true _ _).mpr fun t given =>
        decide_eq_true (all x.1 x.2 delivers granted t given)⟩

instance (w : World) : (e : Event) → Decidable (w.allowed e)
  | .server e => inferInstanceAs (Decidable (apart w.server e ∧ e.timed = true ∧
      requestsOnce w.server e ∧ w.freshTransfer e))
  | .work n _ _ => inferInstanceAs (Decidable ((w.managers n).clientTransferIds.toInt +
      (w.managers n).cmdQueue.length ≤ Int64.maxValue.toInt))
  | .intro _ _ _ | .cmd _ _ | .packet _ _ _ => .isTrue trivial

/-! What is done -/

/-- What is done next in a world. -/
inductive Deed where
  | connect (fd : Int) (now : ClientId)
  /-- A client is to create or to join the session `a`. -/
  | intro (n : Nat) (creates : Bool)
  /-- The server reads the next packet of the process `n`, the header first. -/
  | send (n : Nat) (fd : Int)
  /-- The next packet of the server arrives at the process `n`. -/
  | take (n : Nat)
  | ask (n : Nat) (cmd : TransferCmd)
  | work (n : Nat) (env : WorkEnv)

def headerOf (fd : Int) (p : Packet) : Event := .server (.recv fd (p.wire.take hdrSize))

def bodyOf (fd : Int) (p : Packet) : Quickshare.Event := .recv fd (p.wire.drop hdrSize)

def events (w : World) : Deed → List Event
  | .connect fd now => (connects fd now).map .server
  | .intro n creates => [.intro n (.new (ascii "a") (ascii "a") creates) (Mem.zero packetMaxSize)]
  | .send n fd => match w.up n with
    | [] => []
    | parcel :: _ => [headerOf fd parcel.packet, .server (bodyOf fd parcel.packet)]
  | .take n => match w.down n with
    | [] => []
    | parcel :: _ => [.packet n .opening parcel.packet]
  | .ask n cmd => [.cmd n cmd]
  | .work n env => [.work n env (Mem.zero packetMaxSize)]

/-- The world after a deed; that the bytes read are those that were sent is not checked. -/
def outcome (w : World) : Deed → Except Fault World
  | .send n fd => match w.up n with
    | [] => .ok w
    | parcel :: rest =>
      (w.step (headerOf fd parcel.packet)).bind fun u =>
        u.handles n (bodyOf fd parcel.packet) parcel.source rest
  | .take n => match w.down n with
    | [] => .ok w
    | parcel :: rest => .ok (if n < w.joined then w.takes n parcel rest else w)
  | deed => run World.step w (w.events deed)

/-- What is read is what was sent, so that the outcome is that of the events. -/
def reads (w : World) : Deed → Prop
  | .send n fd => match w.up n with
    | [] => True
    | parcel :: _ => w.server.delivers (.recv fd (parcel.packet.wire.take hdrSize)) = none ∧
      match w.step (headerOf fd parcel.packet) with
      | .error _ => True
      | .ok u => ∃ c, u.headed n fd c parcel.packet
  | _ => True

instance (w : World) : (deed : Deed) → Decidable (w.reads deed)
  | .send n fd => by
    unfold World.reads
    dsimp only
    split
    · exact .isTrue trivial
    · refine @instDecidableAnd _ _ inferInstance ?_
      split
      · exact .isTrue trivial
      · infer_instance
  | .connect .. | .intro .. | .take .. | .ask .. | .work .. => .isTrue trivial

/-- The events of a deed are allowed. -/
def spares (w : World) : Deed → Prop
  | .send n fd => match w.up n with
    | [] => True
    | parcel :: _ => w.allowed (headerOf fd parcel.packet) ∧
      match w.step (headerOf fd parcel.packet) with
      | .error _ => True
      | .ok u => u.allowed (.server (bodyOf fd parcel.packet))
  | deed => Guarded World.step allowed w (w.events deed)

instance (w : World) : (deed : Deed) → Decidable (w.spares deed)
  | .send n fd => by
    unfold World.spares
    dsimp only
    split
    · exact .isTrue trivial
    · refine @instDecidableAnd _ _ inferInstance ?_
      split
      · exact .isTrue trivial
      · infer_instance
  | .connect .. | .intro .. | .take .. | .ask .. | .work .. =>
    inferInstanceAs (Decidable (Guarded World.step allowed w _))

/-- The events that come of what is done. -/
def play (w : World) : List Deed → List Event
  | [] => []
  | deed :: rest => w.events deed ++ match w.outcome deed with
    | .ok u => u.play rest
    | .error _ => []

/-- As long as no packet is complete all that was sent stays on its way. -/
theorem step_silent {e : Quickshare.Event} {u : World} (silent : w.server.delivers e = none)
    (done : w.step (.server e) = .ok u) : u.up = w.up := by
  simp only [World.step, serve, silent] at done
  split at done
  · cases done
  · cases done
    unfold served
    dsimp only
    split <;> rfl

theorem outcome_eq {deed : Deed} (reads : w.reads deed) :
    run World.step w (w.events deed) = w.outcome deed := by
  cases deed with
  | send n fd =>
    simp only [World.reads, events, outcome] at reads ⊢
    cases next : w.up n with
    | nil => rfl
    | cons parcel rest =>
      simp only [next] at reads ⊢
      obtain ⟨silent, headed⟩ := reads
      cases first : w.step (headerOf fd parcel.packet) with
      | error fault => simp [run, first, Except.bind]
      | ok u =>
        simp only [first] at headed
        obtain ⟨c, headed⟩ := headed
        have still : u.up n = parcel :: rest := (congrFun (step_silent silent first) n).trans next
        have second := step_body still headed
        simp only [run, first, Except.bind, bodyOf, second]
        cases u.handles n (.recv fd (parcel.packet.wire.drop hdrSize)) parcel.source rest <;> rfl
  | take n =>
    simp only [events, outcome]
    cases next : w.down n with
    | nil => rfl
    | cons parcel rest => simp only [run, World.step, receive_takes next]
  | _ => rfl

theorem spares_allowed {deed : Deed} (spares : w.spares deed) :
    Guarded World.step allowed w (w.events deed) := by
  cases deed with
  | send n fd =>
    simp only [World.spares, events] at spares ⊢
    cases next : w.up n with
    | nil => trivial
    | cons parcel rest =>
      simp only [next] at spares ⊢
      refine ⟨spares.1, fun u first => ⟨?_, fun _ _ => trivial⟩⟩
      simpa only [first] using spares.2
  | _ => exact spares

variable {deeds : List Deed}

theorem play_run (reads : Guarded outcome reads w deeds) :
    run World.step w (w.play deeds) = run outcome w deeds := by
  induction deeds generalizing w with
  | nil => rfl
  | cons deed rest ih =>
    rw [play, run_append, outcome_eq reads.1, run]
    cases taken : w.outcome deed with
    | error fault => rfl
    | ok u => exact ih (reads.2 u taken)

/-- A guard is met along a play if it is met by the events of every deed. -/
theorem play_guarded {meets : World → Event → Prop} (reads : Guarded outcome reads w deeds) :
    Guarded World.step meets w (w.play deeds) ↔
      Guarded outcome (fun u deed => Guarded World.step meets u (u.events deed)) w deeds := by
  induction deeds generalizing w with
  | nil => exact Iff.rfl
  | cons deed rest ih =>
    rw [play, guarded_append, outcome_eq reads.1]
    refine and_congr_right fun _ => forall_congr' fun u => forall_congr' fun taken => ?_
    rw [taken]
    exact ih (reads.2 u taken)

/-- Deeds whose events are allowed make an allowed run. -/
theorem play_allowed (good : Guarded outcome (fun u deed => u.reads deed ∧ u.spares deed) w deeds) :
    Guarded World.step allowed w (w.play deeds) :=
  (play_guarded (good.mono fun _ _ => And.left)).mpr
    (good.mono fun _ _ both => spares_allowed both.2)

end World

end Quickshare
