import Quickshare.System.Agreement

/-! Every event of the server takes every transfer some steps of the relay further, and
so every step of the server and its clients does. -/

namespace Quickshare

open Bytes Runs Relay

/-- The events of the server keep it in order. -/
theorem Server.Orderly.step {s u : Server} {e : Quickshare.Event} (orderly : s.Orderly)
    (met : apart s e) (timed : e.timed = true) (once : requestsOnce s e)
    (done : Quickshare.step s e = .ok u) : u.Orderly := by
  have queues := orderly.queues.step e
  have epoll := step_epoll_nodup orderly.epoll e
  have distinct := orderly.distinct.step met
  have named := orderly.named.step timed
  have tidy := orderly.tidy.step e
  have unrepeated := orderly.once.step once
  have sound := orderly.sound.step orderly.named e
  rw [done] at queues epoll distinct named tidy unrepeated sound
  exact ⟨queues, epoll, distinct, named, tidy, unrepeated, sound⟩

theorem Server.Orderly.handed {s : Server} (orderly : s.Orderly) (c : Slot)
    (buf : Buffer packetMaxSize) : (s.handed c buf).Orderly :=
  have same := SameSights.handed s c buf
  have id (i : Slot) : ((s.handed c buf).client i).id = (s.client i).id :=
    (Server.Rests.modify s c (fun client => { client with decryptBuf := buf }) .rfl rfl).id i
  ⟨orderly.queues.of_queues same.queue, orderly.epoll,
    orderly.distinct.of_live (fun i => (same.live i).mp) id,
    orderly.named.of_live (fun i => (same.live i).mp) id, orderly.tidy, orderly.once, orderly.sound⟩

/-- Handling a packet of a connected client leaves connected who was. -/
theorem Handled.live_iff {s u : Server} {c : Slot} (handled : Handled c s u) (registered : s.Live c)
    (i : Slot) : u.Live i ↔ s.Live i := by
  refine ⟨handled.live registered i, fun live => ?_⟩
  rcases handled.state i with ⟨same, -⟩ | ⟨rfl, complete, -⟩
  · rwa [Server.Live, same]
  · simp [Server.Live, complete]

namespace World

variable {w w' : World} {n : Nat} {i c : Slot} {t : TransferId} {u : Server} {plan : Plan}
  {source : List UInt8}

section Serving

theorem posted_nothing {source : List UInt8} (sent : u.sent = w.server.sent) (n : Nat) :
    w.posted u source n = [] := by
  unfold World.posted
  cases w.slot n with
  | none => rfl
  | some i =>
    dsimp only
    rw [arrived_none sent]
    split <;> rfl

/-- The server has taken packets, sent `more` and become `u`. -/
theorem Orderly.serves {up' more : Nat → List Parcel} (orderly : w.Orderly) (server : u.Orderly)
    (live : ∀ i, u.Live i → w.server.Live i)
    (id : ∀ i, u.Live i → (u.client i).id = (w.server.client i).id)
    (fewer : ∀ n, ∀ parcel ∈ up' n, parcel ∈ w.up n)
    (incoming : ∀ n, ∀ parcel ∈ more n, n < w.joined ∧ (w.managers n).Incoming parcel) :
    Orderly { w with server := u, up := up', down := fun n => w.down n ++ more n } where
  seated :=
    { apart := fun i j one two => orderly.seated.apart i j (live i one) (live j two)
      below := fun i one => orderly.seated.below i (live i one)
      named := fun i one => (orderly.seated.named i (live i one)).trans (id i one).symm }
  server := server
  unborn n later := by
    obtain ⟨manager, up, down⟩ := orderly.unborn n later
    refine ⟨manager, List.eq_nil_iff_forall_not_mem.mpr fun parcel member => ?_, ?_⟩
    · have old := fewer n parcel member
      rw [up] at old
      cases old
    · have none : more n = [] := List.eq_nil_iff_forall_not_mem.mpr fun parcel member =>
        absurd (incoming n parcel member).1 (Nat.not_lt.mpr later)
      simp [down, none]
  managers := orderly.managers
  up n parcel member := orderly.up n parcel (fewer n parcel member)
  down n parcel member := by
    rcases List.mem_append.mp member with old | new
    · exact orderly.down n parcel old
    · exact (incoming n parcel new).2

theorem mem_posted {parcel : Parcel} (member : parcel ∈ w.posted u source n) :
    ∃ i, w.slot n = some i ∧ u.Live i ∧ ∃ q ∈ w.server.arrived u i, parcel = ⟨q, source⟩ := by
  unfold World.posted at member
  cases found : w.slot n with
  | none => simp [found] at member
  | some i =>
    simp only [found] at member
    split at member
    · obtain ⟨q, listed, rfl⟩ := List.mem_map.mp member
      exact ⟨i, rfl, ‹_›, q, listed, rfl⟩
    · cases member

/-- What a plan posts is what its packets are made. -/
theorem posted_incoming (seated : w.Seated)
    (arrived : ∀ i, u.Live i → w.server.arrived u i =
      (w.server.client i).msgQueue.made (plan.toward i))
    (good : ∀ send ∈ plan, w.server.Live send.1 → ∀ old,
      (w.managers (w.seat send.1)).Incoming ⟨send.2 old, source⟩) :
    ∀ n, ∀ parcel ∈ w.posted u source n, n < w.joined ∧ (w.managers n).Incoming parcel := by
  intro n parcel member
  obtain ⟨i, found, live, q, listed, rfl⟩ := mem_posted member
  obtain ⟨there, rfl⟩ := (slot_some seated).mp found
  refine ⟨seated.below i there, ?_⟩
  rw [arrived i live] at listed
  refine (Queue.made_forall _ fun f member old => ?_ :
    ∀ q ∈ (w.server.client i).msgQueue.made (plan.toward i),
      (w.managers (w.seat i)).Incoming ⟨q, source⟩) q listed
  obtain ⟨send, sends, rfl⟩ := List.mem_map.mp member
  obtain ⟨planned, here⟩ := List.mem_filter.mp sends
  have same : send.1 = i := of_decide_eq_true here
  subst same
  exact good send planned there old

/-- The server is `u`, and has sent `more` to those that were connected and still are. -/
theorem served_fewer (live : ∀ i, u.Live i → w.server.Live i) (source : List UInt8) :
    w.served u source =
      { w with server := u, up := w.up, down := fun n => w.down n ++ w.posted u source n } := by
  simp only [World.served, newcomer_none live]

theorem Orderly.rests (orderly : w.Orderly) (rests : w.server.Rests u) (server : u.Orderly) :
    w.Onward (w.served u []) := by
  have slots : ({ w with server := u } : World).slot = w.slot := by
    funext n
    simp only [slot, rests.live]
  have same : w.served u [] = { w with server := u, up := w.up, down := fun n => w.down n ++ [] } := by
    simp only [served_fewer fun i => (rests.live i).mp, posted_nothing rests.sent]
  have kept (t : TransferId) : (w.served u []).exchange t = w.exchange t := by
    rw [same]
    refine Exchange.same ?_ rfl (fun n => ?_) fun n => ?_
    · exact congrArg (fun f n => Option.isSome (f n)) slots
    · have rows (id : ClientId) : u.db.tables.row t id = w.server.db.tables.row t id := by
        rw [Tables.row, Tables.row, rests.rows]
      simp only [exchange, rows]
      exact congrArg (fun f => if (f n).isSome then w.server.db.tables.row t (w.ids n) else .none) slots
    · simp only [exchange, List.append_nil]
  refine ⟨?_, fun t _ => by rw [kept]⟩
  rw [same]
  exact orderly.serves server (fun i => (rests.live i).mp) (fun i _ => rests.id i) (fun _ _ => id)
    fun _ _ member => by cases member

/-! A client is taken in -/

section Admitting

theorem admits_live (admits : w.server.Admits u i) (j : Slot) : u.Live j ↔ j = i ∨ w.server.Live j := by
  by_cases here : j = i
  · subst here
    exact iff_of_true admits.live (.inl rfl)
  · rw [Server.Live, admits.others j here]
    exact (or_iff_right here).symm

theorem admits_served (admits : w.server.Admits u i) : w.served u [] = { w with
    server := u
    joined := w.joined + 1
    seat := Function.update w.seat i w.joined
    ids := Function.update w.ids w.joined (u.client i).id } := by
  have newcomer : w.newcomer u = some i := by
    cases found : w.newcomer u with
    | none =>
      have none := List.find?_eq_none.mp found i (List.mem_finRange i)
      simp [admits.new, admits.live] at none
    | some j =>
      have new : ¬ w.server.Live j ∧ u.Live j := by simpa using List.find?_some found
      rw [((admits_live admits j).mp new.2).resolve_right new.1]
  simp only [World.served, newcomer, posted_nothing admits.sent, List.append_nil]

theorem admits_seated (seated : w.Seated) (admits : w.server.Admits u i) : (w.served u []).Seated := by
  have seats (j : Slot) (there : u.Live j) (other : j ≠ i) : w.server.Live j :=
    ((admits_live admits j).mp there).resolve_left other
  rw [admits_served admits]
  refine ⟨fun j k one two => ?_, fun j one => ?_, fun j one => ?_⟩
  · dsimp only at one two ⊢
    by_cases here : j = i
    · by_cases there : k = i
      · exact fun _ => here.trans there.symm
      · rw [here, Function.update_self, Function.update_of_ne there]
        exact fun same => absurd (seated.below k (seats k two there)) (by omega)
    · by_cases there : k = i
      · rw [there, Function.update_self, Function.update_of_ne here]
        exact fun same => absurd (seated.below j (seats j one here)) (by omega)
      · rw [Function.update_of_ne here, Function.update_of_ne there]
        exact seated.apart j k (seats j one here) (seats k two there)
  · dsimp only at one ⊢
    by_cases here : j = i
    · rw [here, Function.update_self]
      exact Nat.lt_succ_self _
    · rw [Function.update_of_ne here]
      exact Nat.lt_succ_of_lt (seated.below j (seats j one here))
  · dsimp only at one ⊢
    by_cases here : j = i
    · rw [here, Function.update_self, Function.update_self]
    · have below := seated.below j (seats j one here)
      rw [Function.update_of_ne here, Function.update_of_ne (by omega), admits.others j here]
      exact seated.named j (seats j one here)

theorem admits_slot (seated : w.Seated) (admits : w.server.Admits u i) (n : Nat) :
    (w.served u []).slot n = if n = w.joined then some i else w.slot n := by
  have now := admits_seated seated admits
  by_cases here : n = w.joined
  · rw [if_pos here, slot_some now, admits_served admits]
    exact ⟨admits.live, by simp [here]⟩
  · rw [if_neg here]
    cases found : w.slot n with
    | none =>
      refine List.find?_eq_none.mpr fun j _ => ?_
      have none := List.find?_eq_none.mp found j (List.mem_finRange j)
      simp only [decide_eq_true_eq, not_and, admits_served admits] at none ⊢
      intro there
      by_cases same : j = i
      · rw [same, Function.update_self]
        exact Ne.symm here
      · rw [Function.update_of_ne same]
        exact none (((admits_live admits j).mp there).resolve_left same)
    | some j =>
      obtain ⟨there, seat⟩ := (slot_some seated).mp found
      have other : j ≠ i := fun same => admits.new (same ▸ there)
      rw [slot_some now, admits_served admits]
      exact ⟨(admits_live admits j).mpr (.inr there), by simpa [other] using seat⟩

/-- A process that has not been connected has no slot. -/
theorem slot_unborn (seated : w.Seated) : w.slot w.joined = none := by
  cases found : w.slot w.joined with
  | none => rfl
  | some j =>
    obtain ⟨there, seat⟩ := (slot_some seated).mp found
    exact absurd (seat ▸ seated.below j there) (Nat.lt_irrefl _)

theorem admits_enters (orderly : w.Orderly) (admits : w.server.Admits u i) (distinct : u.DistinctIds)
    (t : TransferId) : Move (w.exchange t) ((w.served u []).exchange t) := by
  have served := admits_served admits
  have slots := admits_slot orderly.seated admits
  have blank : ((w.exchange t).side w.joined).Blank := by
    obtain ⟨manager, up, down⟩ := orderly.unborn w.joined (Nat.le_refl _)
    simp only [exchange, manager, up, down]
    exact TransferManager.init_blank t _
  have apart (d : Nat) (there : (w.exchange t).live d = true) : (w.exchange t).name d ≠ (u.client i).id := by
    have found : (w.slot d).isSome := there
    obtain ⟨j, sits⟩ := Option.isSome_iff_exists.mp found
    obtain ⟨alive, seat⟩ := (slot_some orderly.seated).mp sits
    have other : j ≠ i := fun same => admits.new (same ▸ alive)
    intro same
    refine other (distinct j i ((admits_live admits j).mpr (.inr alive)) admits.live ?_)
    rw [admits.others j other, ← orderly.seated.named j alive, seat]
    exact same
  have move := Move.enters (by simp [exchange, slot_unborn orderly.seated]) blank (u.client i).id
    (u.db.tables.row t (u.client i).id) apart
  refine (congrArg (Move _) ?_).mpr move
  refine Exchange.same (funext fun n => ?_) ?_ (fun n => ?_) fun n => ?_
  · simp only [exchange, slots, Function.update_apply]
    split <;> rfl
  · rw [served]
    rfl
  · simp only [exchange, slots, Function.update_apply]
    by_cases here : n = w.joined
    · simp [here, served]
    · simp [here, served, admits.db]
  · rw [served]
    rfl

theorem Orderly.admits (orderly : w.Orderly) (admits : w.server.Admits u i) (server : u.Orderly) :
    w.Onward (w.served u []) where
  orderly := by
    have seated := admits_seated orderly.seated admits
    rw [admits_served admits] at seated ⊢
    exact ⟨seated, server, fun n later => orderly.unborn n (Nat.le_of_succ_le later), orderly.managers,
      orderly.up, orderly.down⟩
  steps t _ := .single (.move (admits_enters orderly admits server.distinct t))

end Admitting

/-! A client goes -/

section Departing

theorem departs_live (departs : w.server.Departs u c plan) (i : Slot) : u.Live i → w.server.Live i := by
  intro there
  by_cases here : i = c
  · exact absurd (here ▸ there) departs.gone
  · exact (departs.others i here).mp there

theorem departs_seated (seated : w.Seated) (departs : w.server.Departs u c plan) :
    (w.served u []).Seated := by
  have live := departs_live departs
  rw [served_fewer live]
  exact ⟨fun i j one two => seated.apart i j (live i one) (live j two),
    fun i one => seated.below i (live i one),
    fun i one => (seated.named i (live i one)).trans
      (departs.id i fun same => departs.gone (same ▸ one)).symm⟩

theorem departs_slot (seated : w.Seated) (departs : w.server.Departs u c plan) (n : Nat) :
    (w.served u []).slot n = if n = w.seat c then none else w.slot n := by
  have live := departs_live departs
  have left := departs_seated seated departs
  have served := served_fewer live []
  by_cases here : n = w.seat c
  · rw [if_pos here]
    cases found : (w.served u []).slot n with
    | none => rfl
    | some i =>
      obtain ⟨there, seat⟩ := (slot_some left).mp found
      rw [served] at there seat
      have same := seated.apart i c (live i there) departs.there (seat.trans here)
      exact absurd (same ▸ there) departs.gone
  · rw [if_neg here]
    cases found : w.slot n with
    | none =>
      refine List.find?_eq_none.mpr fun i _ => ?_
      have none := List.find?_eq_none.mp found i (List.mem_finRange i)
      simp only [decide_eq_true_eq, not_and, served] at none ⊢
      exact fun there => none (live i there)
    | some i =>
      obtain ⟨there, seat⟩ := (slot_some seated).mp found
      have other : i ≠ c := fun same => here (by rw [← seat, same])
      rw [slot_some left, served]
      exact ⟨(departs.others i other).mpr there, seat⟩

/-- What is seen of the packets that a client leaves behind. -/
def farewells (w : World) (c : Slot) (t : TransferId) (plan : Plan) (n : Nat) :
    List (Down ClientId UInt8) :=
  if n = w.seat c then [] else w.heard t [] plan n

theorem departs_posted (seated : w.Seated) (departs : w.server.Departs u c plan) (t : TransferId)
    (n : Nat) : (w.posted u [] n).filterMap (Parcel.downView t) = w.farewells c t plan n := by
  unfold World.posted farewells World.heard
  cases found : w.slot n with
  | none => simp
  | some i =>
    obtain ⟨there, seat⟩ := (slot_some seated).mp found
    dsimp only
    by_cases here : n = w.seat c
    · have same := seated.apart i c there departs.there (seat.trans here)
      rw [if_pos here, if_neg (same ▸ departs.gone)]
      rfl
    · have other : i ≠ c := fun same => here (by rw [← seat, same])
      have stays := (departs.others i other).mpr there
      rw [if_neg here, if_pos stays, departs.arrived i stays, List.filterMap_map, downViews]
      simp only [Function.comp_def]

theorem departs_told (departs : w.server.Departs u c plan) (t : TransferId) (n : Nat) :
    ∃ ids : List ClientId,
      (∀ i ∈ ids, i = (w.server.client c).id ∧ u.db.tables.row t (w.server.client c).id ≠ .asked) ∧
        w.farewells c t plan n = ids.map .answer := by
  by_cases here : n = w.seat c
  · exact ⟨[], fun _ member => (by cases member), if_pos here⟩
  · have told (send) (member : send ∈ plan) (old : Packet) :
        Parcel.downView t ⟨send.2 old, []⟩ = none ∨
          Parcel.downView t ⟨send.2 old, []⟩ = some (.answer (w.server.client c).id) := by
      rcases departs.cancels send member old with aside | ⟨tId, -, same⟩
      · exact .inl aside.downView
      · rw [same, cancel_view]
        by_cases own : tId = t
        · exact .inr (if_pos own)
        · exact .inl (if_neg own)
    obtain ⟨ids, same, views⟩ := heard_told w (w.server.client c).id told n
    refine ⟨ids, fun i member => ⟨same i member, ?_⟩, (if_neg here).trans views⟩
    rcases departs.settled with nothing | gone
    · rw [nothing, heard_nothing (fun _ member => by cases member)] at views
      rw [List.map_eq_nil_iff.mp views.symm] at member
      cases member
    · simp [gone t]

/-- The rows of a client that goes are dropped, the others hear that it is not to be
waited for, and then it is gone. -/
theorem departs_steps (seated : w.Seated) (departs : w.server.Departs u c plan) (t : TransferId) :
    Steps (w.exchange t) ((w.served u []).exchange t) := by
  have served := served_fewer (departs_live departs) []
  have slots := departs_slot seated departs
  have forgets : Move (w.exchange t) { w.exchange t with row := w.rows t u.db.tables } := by
    refine .forgets _ fun n => ?_
    by_cases here : (w.slot n).isSome
    · simpa [World.rows, exchange, here] using departs.rows t (w.ids n)
    · exact .inr (by simp [World.rows, here])
  have tells : Steps { w.exchange t with row := w.rows t u.db.tables }
      ({ w.exchange t with row := w.rows t u.db.tables }.posts (w.farewells c t plan)) :=
    tells_steps _ rfl rfl (departs_told departs t)
  have leaves := Move.leaves
    (x := { w.exchange t with row := w.rows t u.db.tables }.posts (w.farewells c t plan)) (w.seat c)
  refine .trans (.single (.move forgets)) (.tail tells (.move ((congrArg (Move _) ?_).mpr leaves)))
  refine Exchange.same (funext fun n => ?_) ?_ (fun n => ?_) fun n => ?_
  · simp only [exchange, slots, Function.update_apply, Exchange.posts]
    split <;> rfl
  · rw [served]
    rfl
  · simp only [exchange, slots, Function.update_apply, Exchange.posts, World.rows]
    by_cases here : n = w.seat c
    · simp [here]
    · simp [here, served]
  · simp only [exchange, Exchange.posts, served, TransferManager.side, List.filterMap_append,
      departs_posted seated departs]

theorem Orderly.departs (orderly : w.Orderly) (departs : w.server.Departs u c plan)
    (server : u.Orderly) : w.Onward (w.served u []) where
  orderly := by
    rw [served_fewer (departs_live departs)]
    refine orderly.serves server (departs_live departs)
      (fun i there => departs.id i fun same => departs.gone (same ▸ there)) (fun _ _ => id)
      (posted_incoming orderly.seated departs.arrived fun send member _ old => ?_)
    rcases departs.cancels send member old with aside | ⟨tId, nonzero, same⟩
    · have suits : Packet.Suits (send.2 old) c c (send.2 old) := aside.suits
      exact ⟨suits.whole, suits.known, fun kind => by cases aside _ kind⟩
    · have suits := cancel_suits (p := send.2 old) (c := c) (w.server.client c).id nonzero old send.1
      rw [← same] at suits
      refine ⟨suits.whole, suits.known, fun kind => ?_⟩
      rw [same] at kind
      cases (transferState_cancels _ _ _).1.symm.trans kind
  steps t _ := departs_steps orderly.seated departs t

end Departing

/-! A packet is handled -/

/-- The server has handled the next packet of a client. -/
theorem Orderly.handled {s : Server} {p : Packet} {parcel : Parcel} {rest : List Parcel}
    (orderly : w.Orderly) (opens : w.Opens c s p parcel rest)
    (answers : w.Answers c s parcel rest p plan u) (server : u.Orderly)
    (live : ∀ i, u.Live i ↔ w.server.Live i) (id : ∀ i, (u.client i).id = (w.server.client i).id)
    (posts : w.server.Posts plan u) : w.Onward (w.handled c parcel.source rest u) where
  orderly := by
    have same : w.handled c parcel.source rest u = { w with
        server := u
        up := Function.update w.up (w.seat c) rest
        down := fun n => w.down n ++ w.posted u parcel.source n } := by
      simp only [World.handled, World.served, newcomer_none fun i => (live i).mp]
    have first := orderly.up (w.seat c) parcel (opens.first ▸ List.mem_cons_self)
    rw [same]
    refine orderly.serves server (fun i => (live i).mp) (fun i _ => id i) (fun n q member => ?_)
      (posted_incoming orderly.seated (fun i _ => posts.arrived i) fun send member there old => ?_)
    · by_cases here : n = w.seat c
      · subst here
        rw [Function.update_self] at member
        exact opens.first ▸ List.mem_cons_of_mem _ member
      · rwa [Function.update_of_ne here] at member
    · have suits := answers.suits send member old
      refine ⟨suits.whole, suits.known, fun kind => ?_⟩
      obtain ⟨nonzero, own, request, asked⟩ := suits.valid kind
      refine ⟨nonzero, ?_⟩
      have type := (type_of_wire opens.wire).symm.trans request
      have large : 144 ≤ parcel.packet.size := first.whole.least .transferRequest type
      rw [own, show Packet.clientTransferId _ = _ from asked, clientTransferId_of_wire opens.wire large]
      exact first.request type
  steps t _ := by
    rw [handled_exchange live posts]
    exact answers.steps t

end Serving

section Runs

/-- No connected client has anything left of a transfer with the id that is given to the
request an event delivers. -/
def freshTransfer (w : World) (e : Quickshare.Event) : Prop :=
  ∀ c s, w.server.delivers e = some (c, s) → s.granted c →
    ∀ t ∈ nextRowid (s.db.tables.transfers.map TransferRow.transferId),
      ∀ i, w.server.Live i → ((w.exchange t).side (w.seat i)).Blank

/-- Ids and times are not given twice, requests name nobody twice, and no client counts
its requests past the largest id. -/
def allowed (w : World) : Event → Prop
  | .server e => apart w.server e ∧ e.timed = true ∧ requestsOnce w.server e ∧ w.freshTransfer e
  | .work n _ _ => (w.managers n).clientTransferIds.toInt + (w.managers n).cmdQueue.length ≤
      Int64.maxValue.toInt
  | _ => True

theorem Orderly.serve {e : Quickshare.Event} (orderly : w.Orderly) (allowed : w.allowed (.server e))
    (done : w.serve e = .ok w') : w.Onward w' := by
  obtain ⟨met, timed, once, fresh⟩ := allowed
  unfold World.serve at done
  cases delivers : w.server.delivers e with
  | none =>
    simp only [delivers] at done
    cases taken : Quickshare.step w.server e with
    | error failed => simp [taken] at done
    | ok u =>
      simp only [taken] at done
      cases done
      have server := orderly.server.step met timed once taken
      rcases step_moves orderly.server delivers taken with rests | ⟨i, admits⟩ | ⟨c, plan, departs⟩
      · exact orderly.rests rests server
      · exact orderly.admits admits server
      · exact orderly.departs departs server
  | some found =>
    obtain ⟨c, s⟩ := found
    simp only [delivers] at done
    cases first : w.up (w.seat c) with
    | nil =>
      simp only [first] at done
      cases done
      exact .refl orderly
    | cons parcel rest =>
      simp only [first] at done
      split at done
      · rename_i same
        cases taken : Quickshare.step w.server e with
        | error failed => simp [taken] at done
        | ok u =>
          simp only [taken] at done
          cases done
          have server := orderly.server.step met timed once taken
          obtain ⟨fd, chunk, buf, -, attends, rfl⟩ := delivers_received delivers
          have reads : w.Reads c (w.server.handed c buf) := .handed (clientFind_some attends).1 buf
          have sights := SameSights.handed w.server c buf
          rw [step_delivers delivers] at taken
          obtain ⟨v, handled, taken⟩ := bind_ok taken
          cases taken
          have opens : w.Opens c (w.server.handed c buf)
              ((w.server.handed c buf).client c).decryptBuf.packet parcel rest :=
            ⟨first, rfl, same, (orderly.up _ parcel (first ▸ List.mem_cons_self)).whole⟩
          obtain ⟨plan, answers⟩ := analizePacket_answers orderly.seated reads (orderly.server.handed c buf)
            opens (fun granted => (once c _ delivers granted).1)
            (fun granted n live => by
              obtain ⟨i, found⟩ := Option.isSome_iff_exists.mp live
              obtain ⟨there, rfl⟩ := (slot_some orderly.seated).mp found
              exact fresh c _ delivers granted _ (recorded_grants granted.2.1 granted.2.2).rowid i there)
            handled
          have touched := analizePacket_touches (w.server.handed c buf) c
          rw [handled] at touched
          have touched : Handled c (w.server.handed c buf) v := touched
          have last := SameSights.rewound v c
          have seats : (w.server.handed c buf).Live c := (reads.live c).mpr reads.connected
          have answers' : w.Answers c (w.server.handed c buf) parcel rest _ plan (v.rewound c) :=
            ⟨answers.posts.congr (fun _ => rfl) rfl last.queue rfl, answers.suits, answers.steps⟩
          refine orderly.handled opens answers' server (fun i => ?_) (fun i => ?_)
            (answers.posts.congr sights.queue rfl last.queue rfl)
          · exact (last.live i).trans ((touched.live_iff seats i).trans (reads.live i))
          · exact ((Server.Rests.modify v c _ .rfl rfl).id i).trans ((touched.id i).trans (reads.id i))
      · cases done
        exact .refl orderly

/-- Every step takes every transfer some steps of the relay further. -/
theorem Kept.onward {e : Event} (kept : w.Kept) (allowed : w.allowed e) (done : w.step e = .ok w') :
    w.Onward w' := by
  cases e with
  | server e => exact kept.toOrderly.serve allowed done
  | intro n session old =>
    cases done
    by_cases born : n < w.joined
    · rw [if_pos born]
      exact kept.toOrderly.intro born
    · rw [if_neg born]
      exact .refl kept.toOrderly
  | cmd n cmd =>
    cases done
    by_cases born : n < w.joined
    · rw [if_pos born]
      exact kept.toOrderly.cmd born cmd
    · rw [if_neg born]
      exact .refl kept.toOrderly
  | work n env old =>
    cases done
    by_cases born : n < w.joined
    · rw [if_pos born]
      exact kept.toOrderly.work born allowed
    · rw [if_neg born]
      exact .refl kept.toOrderly
  | packet n env p =>
    cases done
    by_cases born : n < w.joined
    · rw [if_pos born]
      exact kept.receive born
    · rw [if_neg born]
      exact .refl kept.toOrderly

theorem Kept.step {e : Event} (kept : w.Kept) (allowed : w.allowed e) (done : w.step e = .ok w') :
    w'.Kept :=
  (kept.onward allowed done).kept kept

end Runs

end World

end Quickshare
