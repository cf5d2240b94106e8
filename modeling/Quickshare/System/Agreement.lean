import Quickshare.System.Arrivals
import Quickshare.System.Connections

/-! What holds of the server, its clients and the packets between them along every run
in which ids are not used anew while something of their transfer is left. -/

namespace Quickshare

open Bytes Runs Relay

/-- A process that has not begun knows of no transfer. -/
theorem TransferManager.init_blank (t : TransferId) (source : List UInt8) :
    (TransferManager.init.side t source [] []).Blank where
  host := by
    simp only [side]
    exact TransferArray.view_none fun _ => rfl
  recv := by
    simp only [side]
    exact TransferArray.view_none fun _ => rfl
  up := rfl
  down := rfl

/-- What holds of a packet on its way from a client to the server. -/
structure TransferManager.Outgoing (m : TransferManager) (parcel : Parcel) : Prop where
  whole : parcel.packet.whole
  request : parcel.packet.type? = some .transferRequest →
    m.Matches parcel.packet.clientTransferId parcel.source

/-- What holds of a packet on its way from the server to a client. -/
structure TransferManager.Incoming (m : TransferManager) (parcel : Parcel) : Prop where
  whole : parcel.packet.whole
  known : parcel.packet.type? = some .transferRequest ∨ parcel.packet.type? = some .transferCancel →
    parcel.packet.tId ≠ 0
  valid : parcel.packet.type? = some .transferValid → parcel.packet.tId ≠ 0 ∧
    m.Matches parcel.packet.clientTransferId parcel.source

namespace World

variable {w w' : World} {n : Nat} {t : TransferId}

/-- What the parties have of each other between the steps. -/
structure Orderly (w : World) : Prop where
  seated : w.Seated
  server : w.server.Orderly
  unborn : ∀ n, w.joined ≤ n → w.managers n = .init ∧ w.up n = [] ∧ w.down n = []
  managers : ∀ n, (w.managers n).Orderly
  up : ∀ n, ∀ parcel ∈ w.up n, (w.managers n).Outgoing parcel
  down : ∀ n, ∀ parcel ∈ w.down n, (w.managers n).Incoming parcel

/-- What holds between the steps. -/
structure Kept (w : World) : Prop extends w.Orderly where
  sound : ∀ t, t ≠ 0 → (w.exchange t).Sound

/-- From `w` to `w'` every transfer takes steps of the relay. -/
structure Onward (w w' : World) : Prop where
  orderly : w'.Orderly
  steps : ∀ t, t ≠ 0 → Steps (w.exchange t) (w'.exchange t)

theorem Onward.refl (orderly : w.Orderly) : w.Onward w := ⟨orderly, fun _ _ => .refl⟩

theorem Onward.kept (onward : w.Onward w') (kept : w.Kept) : w'.Kept :=
  ⟨onward.orderly, fun t nonzero => (onward.steps t nonzero).sound (kept.sound t nonzero)⟩

section Clients

variable {m : TransferManager} {up down : List Parcel} {offered : Nat → TransferId → List UInt8}

/-! A client's steps -/

/-- The client `n` has become `m`, and the packets from and to it `up` and `down`. -/
def became (w : World) (n : Nat) (m : TransferManager) (up down : List Parcel)
    (offered : Nat → TransferId → List UInt8) : World :=
  { w with
    managers := Function.update w.managers n m
    up := Function.update w.up n up
    down := Function.update w.down n down
    offered }

theorem became_exchange (others : ∀ k, k ≠ n → offered k = w.offered k) (t : TransferId) :
    (w.became n m up down offered).exchange t =
      (w.exchange t).withSide n (m.side t (offered n t) up down) := by
  refine Exchange.same rfl rfl (fun _ => rfl) fun k => ?_
  by_cases here : k = n
  · subst here
    simp [became, exchange, Exchange.withSide]
  · simp [became, exchange, Exchange.withSide, here, others k here]

/-- A client that does with its transfers what the relay allows. -/
theorem Orderly.became (orderly : w.Orderly) (born : n < w.joined) (manager : m.Orderly)
    (matched : ∀ l source, (w.managers n).Matches l source → m.Matches l source)
    (outgoing : ∀ parcel ∈ up, parcel ∈ w.up n ∨ m.Outgoing parcel)
    (incoming : ∀ parcel ∈ down, parcel ∈ w.down n) (others : ∀ k, k ≠ n → offered k = w.offered k)
    (turns : ∀ t ≠ 0, ClientSteps ((w.exchange t).side n) (m.side t (offered n t) up down)) :
    w.Onward (w.became n m up down offered) where
  orderly :=
    { seated := ⟨orderly.seated.apart, orderly.seated.below, orderly.seated.named⟩
      server := orderly.server
      unborn := fun k later => by
        have other : k ≠ n := by
          rintro rfl
          exact absurd born (Nat.not_lt.mpr later)
        simpa [World.became, other] using orderly.unborn k later
      managers := fun k => by
        by_cases here : k = n
        · subst here
          simpa [World.became] using manager
        · simpa [World.became, here] using orderly.managers k
      up := fun k parcel member => by
        by_cases here : k = n
        · subst here
          simp only [World.became, Function.update_self] at member ⊢
          rcases outgoing parcel member with old | new
          · have sent := orderly.up k parcel old
            exact ⟨sent.whole, fun request => matched _ _ (sent.request request)⟩
          · exact new
        · simp only [World.became, Function.update_of_ne here] at member ⊢
          exact orderly.up k parcel member
      down := fun k parcel member => by
        by_cases here : k = n
        · subst here
          simp only [World.became, Function.update_self] at member ⊢
          have old := orderly.down k parcel (incoming parcel member)
          exact ⟨old.whole, old.known, fun valid => (old.valid valid).imp_right (matched _ _)⟩
        · simp only [World.became, Function.update_of_ne here] at member ⊢
          exact orderly.down k parcel member }
  steps t nonzero := by
    rw [became_exchange others]
    exact (turns t nonzero).steps rfl

/-- A client that sends `parcels`. -/
theorem Orderly.acted {parcels : List Parcel} (orderly : w.Orderly) (born : n < w.joined)
    (manager : m.Orderly)
    (matched : ∀ l source, (w.managers n).Matches l source → m.Matches l source)
    (outgoing : ∀ parcel ∈ parcels, m.Outgoing parcel)
    (turns : ∀ t ≠ 0, ClientSteps ((w.exchange t).side n)
      (m.side t (w.offered n t) (w.up n ++ parcels) (w.down n))) :
    w.Onward { w with
      managers := Function.update w.managers n m
      up := Function.update w.up n (w.up n ++ parcels) } := by
  have onward := orderly.became born manager matched
    (fun parcel member => (List.mem_append.mp member).imp_right (outgoing parcel))
    (fun _ => id) (fun _ _ => rfl) turns
  rwa [World.became, Function.update_eq_self n w.down] at onward

theorem Orderly.intro {session : Session} {old : Packet} (orderly : w.Orderly) (born : n < w.joined) :
    w.Onward (w.push n ⟨session.toPacket old, []⟩) := by
  have type : (session.toPacket old).type? = some .clientIntro := by
    rw [Session.toPacket, Packet.type?_store _ _ _ (by decide), Packet.type?_write _ _ (by decide),
      Packet.type?_write _ _ (by decide), Packet.type?_packetHdr]
  have aside : (session.toPacket old).aside := .of_type type rfl
  have outgoing (parcel : Parcel) (member : parcel ∈ [⟨session.toPacket old, []⟩]) :
      (w.managers n).Outgoing parcel := by
    cases List.mem_singleton.mp member
    exact ⟨aside.whole, fun request => by cases aside _ request⟩
  have onward := orderly.acted born (orderly.managers n) (fun _ _ same => same) outgoing fun t _ => ?_
  · rwa [Function.update_eq_self n w.managers] at onward
  · have same : (w.managers n).side t (w.offered n t) (w.up n ++ [⟨session.toPacket old, []⟩])
        (w.down n) = (w.exchange t).side n := by
      simp [TransferManager.side, exchange, aside.upView]
    rw [same]

theorem Orderly.cmd (orderly : w.Orderly) (born : n < w.joined) (cmd : TransferCmd) :
    w.Onward { w with managers := Function.update w.managers n ((w.managers n).sendCmd cmd).2 } := by
  have before := orderly.managers n
  have manager : ((w.managers n).sendCmd cmd).2.Orderly := by
    unfold TransferManager.sendCmd
    split
    · exact ⟨before.hosts, before.receives, before.oneHost, before.oneRecv, before.locals,
        before.counted⟩
    · exact before
  have matched (l : TransferId) (source : List UInt8) (held : (w.managers n).Matches l source) :
      ((w.managers n).sendCmd cmd).2.Matches l source := by
    unfold TransferManager.sendCmd
    split
    · exact ⟨held.counted, held.same⟩
    · exact held
  have none (parcel : Parcel) (member : parcel ∈ []) :
      ((w.managers n).sendCmd cmd).2.Outgoing parcel := by cases member
  have onward := orderly.acted born manager matched none
    fun t _ => by
      rw [List.append_nil]
      unfold TransferManager.sendCmd
      split
      · exact .refl
      · exact .refl
  rwa [List.append_nil, Function.update_eq_self n w.up] at onward

theorem Orderly.work {env : WorkEnv} {old : Packet} (orderly : w.Orderly) (born : n < w.joined)
    (room : (w.managers n).clientTransferIds.toInt + (w.managers n).cmdQueue.length ≤
      Int64.maxValue.toInt) : w.Onward (w.work n env old) := by
  unfold World.work
  cases taken : (w.managers n).step (.work env old) with
  | error _ => exact .refl orderly
  | ok m =>
    have emits : (w.managers n).Emits (w.emitted n env old) m :=
      TransferManager.work_emits (orderly.managers n) room taken
    exact orderly.acted born emits.orderly emits.matched
      (fun parcel member => ⟨emits.whole parcel member, emits.requests parcel member⟩)
      fun t nonzero => emits.turns t nonzero _ _ _

/-! A packet arrives -/

theorem packet_known {p q : Packet} (same : p.wire = q.wire) (whole : q.whole) {type : PacketType}
    (kind : p.type? = some type) (large : type.least ≠ 0) : p.tId = q.tId := by
  have least := whole.least type ((type_of_wire same).symm.trans kind)
  have hdr := hdr_of_wire same (Nat.le_trans (PacketType.least_large large) least)
  have ids : p.hdr.tId = q.hdr.tId := by rw [hdr]
  exact ids

/-- The next packet of the server is one its client expects. -/
theorem Kept.arrives {p : Packet} {parcel : Parcel} {rest : List Parcel} (kept : w.Kept)
    (first : w.down n = parcel :: rest) (same : p.wire = parcel.packet.wire) :
    (w.managers n).Arrives p parcel.source := by
  have incoming := kept.down n parcel (first ▸ List.mem_cons_self)
  have type := type_of_wire same
  have seen (t : TransferId) : ((w.exchange t).side n).down =
      (Parcel.downView t ⟨p, parcel.source⟩).toList ++ rest.filterMap (Parcel.downView t) := by
    have view : parcel.downView t = Parcel.downView t ⟨p, parcel.source⟩ :=
      (Parcel.downView_of_wire same incoming.whole).symm
    simp only [exchange, TransferManager.side, first, List.filterMap_cons, ← view]
    cases parcel.downView t <;> rfl
  refine ⟨fun kind => ?_, fun kind source => ?_, fun kind => ?_, fun kind => ?_⟩
  · rcases kind with request | cancel
    · rw [packet_known same incoming.whole request (by decide)]
      exact incoming.known (.inl (type ▸ request))
    · rw [packet_known same incoming.whole cancel (by decide)]
      exact incoming.known (.inr (type ▸ cancel))
  · have nonzero : p.tId ≠ 0 := by
      rw [packet_known same incoming.whole kind (by decide)]
      exact incoming.known (.inl (type ▸ kind))
    have single := ((kept.sound p.tId nonzero).side n).single
    have one : ((w.exchange p.tId).side n).asks ≠ 0 := by
      simp [Party.asks, seen, Parcel.downView, kind, Down.isRequest]
    have none : ((w.exchange p.tId).side n).recv = Option.none := by
      simp only [Party.recvs] at single
      exact Option.toList_eq_nil_iff.mp (List.eq_nil_of_length_eq_zero (by omega))
    refine TransferArray.view_none fun i => ?_
    have empty := TransferArray.none_of_view none i
    rw [← Option.not_isSome_iff_eq_none, ActiveTransfer.recvView_isSome] at empty ⊢
    exact empty
  · have nonzero : p.tId ≠ 0 := by
      rw [packet_known same incoming.whole kind (by decide)]
      exact (incoming.valid (type ▸ kind)).1
    have single := ((kept.sound p.tId nonzero).side n).valid
    have one : ((w.exchange p.tId).side n).valids ≠ 0 := by
      simp [Party.valids, seen, Parcel.downView, kind, Down.isValid]
    have none : ((w.exchange p.tId).side n).host = Option.none := by
      simp only [Party.hosts] at single
      exact Option.toList_eq_nil_iff.mp (List.eq_nil_of_length_eq_zero (by omega))
    exact none
  · have large : 144 ≤ parcel.packet.size := incoming.whole.least .transferValid (type ▸ kind)
    rw [clientTransferId_of_wire same large]
    exact (incoming.valid (type ▸ kind)).2

/-- Only what the client that takes the packet was offered may change. -/
theorem offered_other (p : Packet) (given : List UInt8) {k : Nat} (other : k ≠ n) :
    (if p.type? = some .transferRequest
      then Function.update w.offered n (Function.update (w.offered n) p.tId given)
      else w.offered) k = w.offered k := by
  split
  · exact Function.update_of_ne other _ _
  · rfl

theorem offered_self (p : Packet) (given : List UInt8) (t : TransferId) :
    (if p.type? = some .transferRequest
      then Function.update w.offered n (Function.update (w.offered n) p.tId given)
      else w.offered) n t = TransferManager.offer p given t (w.offered n t) := by
  unfold TransferManager.offer
  by_cases request : p.type? = some .transferRequest
  · simp only [request, if_true, true_and, Function.update_self]
    by_cases same : p.tId = t
    · rw [same, Function.update_self, if_pos rfl]
    · rw [Function.update_of_ne (Ne.symm same), if_neg same]
  · simp only [request, if_false, false_and]

theorem Kept.receive {env : PacketEnv} {p : Packet} (kept : w.Kept) (born : n < w.joined) :
    w.Onward (w.receive n env p) := by
  unfold World.receive
  cases first : w.down n with
  | nil => exact .refl kept.toOrderly
  | cons parcel rest =>
    dsimp only
    split
    · rename_i same
      cases taken : (w.managers n).step (.packet env p) with
      | error _ => exact .refl kept.toOrderly
      | ok m =>
        have takes := TransferManager.handle_takes (kept.managers n) (kept.arrives first same) taken
        have whole := (kept.down n parcel (first ▸ List.mem_cons_self)).whole
        have view (t : TransferId) : parcel.downView t = Parcel.downView t ⟨p, parcel.source⟩ :=
          (Parcel.downView_of_wire same whole).symm
        have side (t : TransferId) : (w.exchange t).side n = (w.managers n).side t (w.offered n t)
            (w.up n) (⟨p, parcel.source⟩ :: rest) := by
          simp only [exchange, TransferManager.side, first, List.filterMap_cons, ← view]
        have outgoing (parcel : Parcel) (member : parcel ∈ w.up n) :
            parcel ∈ w.up n ∨ m.Outgoing parcel := .inl member
        have incoming (parcel : Parcel) (member : parcel ∈ rest) : parcel ∈ w.down n :=
          first ▸ List.mem_cons_of_mem _ member
        have onward := kept.toOrderly.became born takes.orderly takes.matched outgoing incoming
          (fun k other => offered_other p parcel.source other) fun t nonzero => by
            rw [side, offered_self]
            exact takes.turns t nonzero _ _ _
        rwa [World.became, Function.update_eq_self n w.up] at onward
    · exact .refl kept.toOrderly

end Clients

end World

end Quickshare
