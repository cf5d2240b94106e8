import Quickshare.Lib.RelayRuns
import Quickshare.System.Serving

/-! What a packet that the server handles does to the transfers. -/

namespace Quickshare

open Bytes Runs Relay

/-- Two exchanges with the same parts are the same. -/
theorem Relay.Exchange.same {Client : Type} {Id : Type} {Byte : Type} {x y : Exchange Client Id Byte}
    (live : y.live = x.live) (name : y.name = x.name) (row : ∀ n, y.row n = x.row n)
    (side : ∀ n, y.side n = x.side n) : y = x := by
  obtain ⟨_, _, _, _⟩ := x
  obtain ⟨_, _, _, _⟩ := y
  cases live
  cases name
  cases funext row
  cases funext side
  rfl

/-- What holds of the server between its steps. -/
structure Server.Orderly (s : Server) : Prop where
  queues : s.QueuesValid
  epoll : s.epoll.Nodup
  distinct : s.DistinctIds
  named : s.Named
  tidy : s.db.Tidy
  once : s.db.Unrepeated
  sound : s.db.tables.Sound

namespace World

variable {w : World} {n : Nat} {i c : Slot} {t : TransferId} {s u : Server} {plan : Plan}
  {source : List UInt8}

/-- Each connected client is a process of its own, and the server knows its id. -/
structure Seated (w : World) : Prop where
  apart : ∀ i j, w.server.Live i → w.server.Live j → w.seat i = w.seat j → i = j
  below : ∀ i, w.server.Live i → w.seat i < w.joined
  named : ∀ i, w.server.Live i → w.ids (w.seat i) = (w.server.client i).id

theorem slot_some (seated : w.Seated) : w.slot n = some i ↔ w.server.Live i ∧ w.seat i = n := by
  constructor
  · intro found
    simpa using List.find?_some found
  · rintro ⟨live, here⟩
    cases found : w.slot n with
    | none => simpa [live, here] using List.find?_eq_none.mp found i (List.mem_finRange i)
    | some j =>
      have other : w.server.Live j ∧ w.seat j = n := by simpa using List.find?_some found
      rw [seated.apart j i other.1 live (other.2.trans here.symm)]

theorem slot_seat (seated : w.Seated) (live : w.server.Live i) : w.slot (w.seat i) = some i :=
  (slot_some seated).mpr ⟨live, rfl⟩

theorem newcomer_none (live : ∀ i, s.Live i → w.server.Live i) : w.newcomer s = none := by
  refine List.find?_eq_none.mpr fun i _ => ?_
  simpa using mt (live i)

/-- What is seen of a plan at one process. -/
def heard (w : World) (t : TransferId) (source : List UInt8) (plan : Plan) (n : Nat) :
    List (Down ClientId UInt8) :=
  match w.slot n with
  | none => []
  | some i => downViews t source ((w.server.client i).msgQueue.made (plan.toward i))

/-- The server has handled the packet at the head of the channel of `c`. -/
def handled (w : World) (c : Slot) (source : List UInt8) (rest : List Parcel) (u : Server) : World :=
  { w.served u source with up := Function.update w.up (w.seat c) rest }

/-- The rows of one transfer at the processes that are connected. -/
def rows (w : World) (t : TransferId) (tables : Tables) (n : Nat) : Row :=
  if (w.slot n).isSome then tables.row t (w.ids n) else .none

/-- The next packet of `c` is gone, `plan` is sent and the rows are those of `tables`. -/
def after (w : World) (c : Slot) (rest : List Parcel) (source : List UInt8) (plan : Plan)
    (tables : Tables) (t : TransferId) : Exchange Nat ClientId UInt8 :=
  { ((w.exchange t).takes (w.seat c) (rest.filterMap (Parcel.upView t))).posts
      (w.heard t source plan) with
    row := w.rows t tables }

theorem handled_exchange {rest : List Parcel} (live : ∀ i, u.Live i ↔ w.server.Live i)
    (posts : w.server.Posts plan u) (t : TransferId) :
    (w.handled c source rest u).exchange t =
      w.after c rest source plan u.db.tables t := by
  have none : w.newcomer u = none := newcomer_none fun i => (live i).mp
  have slots : ({ w with server := u } : World).slot = w.slot := by
    funext n
    simp only [slot, live]
  have posted (n : Nat) : (w.posted u source n).filterMap (Parcel.downView t) =
      w.heard t source plan n := by
    unfold World.posted World.heard
    cases found : w.slot n with
    | none => rfl
    | some i =>
      have here : w.server.Live i ∧ w.seat i = n := by simpa using List.find?_some found
      dsimp only
      rw [if_pos ((live i).mpr here.1), posts.arrived, List.filterMap_map, downViews]
      simp only [Function.comp_def]
  have served : w.served u source = { w with
      server := u
      down := fun n => w.down n ++ w.posted u source n } := by
    simp only [World.served, none]
  rw [handled, served, after]
  refine Exchange.same ?_ rfl (fun n => ?_) fun n => ?_
  · exact congrArg (fun f n => Option.isSome (f n)) slots
  · exact congrArg (fun f => if (f n).isSome then u.db.tables.row t (w.ids n) else .none) slots
  · by_cases here : n = w.seat c
    · subst here
      simp [exchange, Exchange.posts, Exchange.takes, Exchange.withSide, TransferManager.side, posted]
    · simp [exchange, Exchange.posts, Exchange.takes, Exchange.withSide, TransferManager.side, posted,
        here]

section Steps

variable {parcel : Parcel} {rest : List Parcel} {tables : Tables} {sender : ClientId}

/-- Taking a packet that is about other transfers is not seen. -/
theorem takes_unseen (first : w.up (w.seat c) = parcel :: rest) (unseen : parcel.upView t = none) :
    (w.exchange t).takes (w.seat c) (rest.filterMap (Parcel.upView t)) = w.exchange t := by
  have same : ((w.exchange t).side (w.seat c)).up = rest.filterMap (Parcel.upView t) := by
    simp [exchange, TransferManager.side, first, unseen]
  rw [Exchange.takes, ← same]
  exact congrArg (fun side => { w.exchange t with side }) (Function.update_eq_self _ _)

theorem takes_seen (first : w.up (w.seat c) = parcel :: rest) {view : Up UInt8}
    (seen : parcel.upView t = some view) :
    ((w.exchange t).side (w.seat c)).up = view :: rest.filterMap (Parcel.upView t) := by
  simp [exchange, TransferManager.side, first, seen]

theorem posts_nothing {x : Exchange Nat ClientId UInt8} {more : Nat → List (Down ClientId UInt8)}
    (nothing : ∀ n, more n = []) : x.posts more = x := by
  refine Exchange.same rfl rfl (fun _ => rfl) fun n => ?_
  simp only [Exchange.posts, nothing, List.append_nil]

/-- What a handler does that is about other transfers. -/
theorem steps_unseen (first : w.up (w.seat c) = parcel :: rest) (unseen : parcel.upView t = none)
    (same : ∀ id, tables.row t id = w.server.db.tables.row t id)
    (silent : ∀ n, w.heard t source plan n = []) :
    Steps (w.exchange t) (w.after c rest source plan tables t) := by
  rw [after, takes_unseen first unseen, posts_nothing silent]
  have kept : w.rows t tables = (w.exchange t).row := funext fun n => by
    simp only [World.rows, exchange, same]
  rw [kept]

/-- Clients are told of one that is not waited for. -/
theorem tells_steps {y : Exchange Nat ClientId UInt8} (sender : ClientId)
    (row : y.row = w.rows t tables) (name : y.name = w.ids) {more : Nat → List (Down ClientId UInt8)}
    (told : ∀ n, ∃ ids : List ClientId, (∀ i ∈ ids, i = sender ∧ tables.row t sender ≠ .asked) ∧
      more n = ids.map .answer) : Steps y (y.posts more) := by
  choose ids named views using told
  rw [show more = fun n => (ids n).map .answer from funext views]
  refine .single (.move (.tells ids fun n i member e here awaited => ?_))
  obtain ⟨same, settled⟩ := named n i member
  have asked : w.rows t tables e = .asked := row ▸ awaited.1
  rw [name] at here
  unfold World.rows at asked
  split at asked
  · rw [here, same] at asked
    exact settled asked
  · cases asked

/-- Rows go and clients are told of one that is not waited for. -/
theorem steps_told (sender : ClientId) (first : w.up (w.seat c) = parcel :: rest)
    (unseen : parcel.upView t = none)
    (fewer : ∀ id, tables.row t id = w.server.db.tables.row t id ∨ tables.row t id = .none)
    (told : ∀ n, ∃ ids : List ClientId, (∀ i ∈ ids, i = sender ∧ tables.row t sender ≠ .asked) ∧
      w.heard t source plan n = ids.map .answer) :
    Steps (w.exchange t) (w.after c rest source plan tables t) := by
  rw [after, takes_unseen first unseen]
  have forgets : Move (w.exchange t) { w.exchange t with row := w.rows t tables } := by
    refine .forgets _ fun n => ?_
    by_cases live : (w.slot n).isSome
    · simpa [World.rows, exchange, live] using fewer (w.ids n)
    · exact .inr (by simp [World.rows, live])
  exact .trans (.single (.move forgets))
    (tells_steps sender rfl rfl told)

end Steps

section Handlers

variable {Item : Type} {parcel : Parcel} {rest : List Parcel} {q : Packet}

/-- The server of the world once it has read a packet of `c`. -/
structure Reads (w : World) (c : Slot) (s : Server) : Prop where
  live : ∀ i, s.Live i ↔ w.server.Live i
  id : ∀ i, (s.client i).id = (w.server.client i).id
  db : s.db = w.server.db
  connected : w.server.Live c

theorem Reads.handed (connected : w.server.Live c) (buf : Buffer packetMaxSize) :
    w.Reads c (w.server.handed c buf) where
  live := (SameSights.handed w.server c buf).live
  id := w.server.clients.modify_field c (fun client => { client with decryptBuf := buf }) Client.id
    fun _ => rfl
  db := rfl
  connected := connected

theorem Reads.seat (reads : w.Reads c s) (seated : w.Seated) (live : s.Live i) :
    w.ids (w.seat i) = (s.client i).id :=
  (seated.named i ((reads.live i).mp live)).trans (reads.id i).symm

/-- A plan for connected clients is for those whose ids it has. -/
theorem downViews_toConnected {key : Item → ClientId} {packet : Item → Packet → Packet}
    {items : List Item} (view : Item → Option (Down ClientId UInt8)) (seated : w.Seated)
    (reads : w.Reads c s) (distinct : s.DistinctIds) (found : w.slot n = some i)
    (viewed : ∀ x ∈ items, ∀ old, Parcel.downView t ⟨packet x old, source⟩ = view x)
    (queue : Queue Packet) :
    downViews t source (queue.made ((toConnected s key packet items).toward i)) =
      (items.filter fun x => key x = w.ids n).filterMap view := by
  obtain ⟨live, here⟩ := (slot_some seated).mp found
  have ids : (items.filter fun x => clientFindById s.clients (key x) = some i) =
      items.filter fun x => key x = w.ids n := by
    refine List.filter_congr fun x _ => ?_
    rw [decide_eq_decide, distinct.find_iff, reads.live, ← here, seated.named i live, reads.id]
    simp [live]
  rw [toConnected_toward, ids, downViews_made _ _ _ view fun x member old =>
    viewed x (List.mem_of_mem_filter member) old]

theorem heard_toConnected {key : Item → ClientId} {packet : Item → Packet → Packet} {items : List Item}
    (view : Item → Option (Down ClientId UInt8)) (seated : w.Seated) (reads : w.Reads c s)
    (distinct : s.DistinctIds)
    (viewed : ∀ x ∈ items, ∀ old, Parcel.downView t ⟨packet x old, source⟩ = view x) (n : Nat) :
    w.heard t source (toConnected s key packet items) n =
      if (w.slot n).isSome then (items.filter fun x => key x = w.ids n).filterMap view else [] := by
  unfold heard
  cases found : w.slot n with
  | none => rfl
  | some i => exact downViews_toConnected view seated reads distinct found viewed _

/-- A plan whose packets are about something else is not heard. -/
theorem heard_nothing (unseen : ∀ send ∈ plan, ∀ old, Parcel.downView t ⟨send.2 old, source⟩ = none)
    (n : Nat) : w.heard t source plan n = [] := by
  unfold heard
  cases w.slot n with
  | none => rfl
  | some i =>
    refine downViews_nothing _ fun f member old => ?_
    obtain ⟨send, listed, rfl⟩ := List.mem_map.mp member
    exact unseen send (List.mem_of_mem_filter listed) old

theorem heard_told (w : World) (sender : ClientId)
    (told : ∀ send ∈ plan, ∀ old, Parcel.downView t ⟨send.2 old, source⟩ = none ∨
      Parcel.downView t ⟨send.2 old, source⟩ = some (.answer sender)) (n : Nat) :
    ∃ ids : List ClientId, (∀ i ∈ ids, i = sender) ∧ w.heard t source plan n = ids.map .answer := by
  unfold heard
  cases w.slot n with
  | none => exact ⟨[], nofun, rfl⟩
  | some i =>
    refine downViews_told _ fun f member old => ?_
    obtain ⟨send, listed, rfl⟩ := List.mem_map.mp member
    exact told send (List.mem_of_mem_filter listed) old

/-- Copies for those that accept a transfer. -/
theorem heard_relay (seated : w.Seated) (reads : w.Reads c s) (orderly : s.Orderly)
    {db : Database} (same : db.tables = s.db.tables) (works : ∀ n, db.outcome n = none)
    {view : Down ClientId UInt8} (viewed : Parcel.downView t ⟨q, source⟩ = some view) (n : Nat) :
    w.heard t source (relayPlan s q db t).1 n =
      if (w.exchange t).row n = .accepted then [view] else [] := by
  have once : db.Unrepeated := by
    rw [Database.Unrepeated, same]
    exact orderly.once
  have cursor := accepted_filter works (same ▸ orderly.sound.named) once t (w.ids n)
  have row : (w.exchange t).row n = if (w.slot n).isSome then db.tables.row t (w.ids n) else .none := by
    rw [same, reads.db]
    rfl
  rw [relayPlan, heard_toConnected (fun _ => some view) seated reads orderly.distinct
    (fun _ _ _ => viewed), row]
  simp only [id, cursor]
  by_cases live : (w.slot n).isSome
  · simp only [live, if_true]
    split <;> rfl
  · simp [live]

theorem heard_relay_other {db : Database} {tId : TransferId}
    (viewed : Parcel.downView t ⟨q, source⟩ = none) (n : Nat) :
    w.heard t source (relayPlan s q db tId).1 n = [] := by
  refine heard_nothing (fun send member old => ?_) n
  obtain ⟨id, -, here⟩ := List.mem_flatMap.mp member
  obtain ⟨r, -, rfl⟩ := Option.map_eq_some_iff.mp (Option.mem_toList.mp here)
  exact viewed

/-- `p` is the packet at the head of the channel of `c`, as the server has read it. -/
structure Opens (w : World) (c : Slot) (s : Server) (p : Packet) (parcel : Parcel)
    (rest : List Parcel) : Prop where
  first : w.up (w.seat c) = parcel :: rest
  held : (s.client c).decryptBuf.packet = p
  wire : p.wire = parcel.packet.wire
  entire : parcel.packet.whole

theorem Opens.view {p : Packet} (opens : w.Opens c s p parcel rest) :
    parcel.upView t = Parcel.upView t ⟨p, parcel.source⟩ :=
  (Parcel.upView_of_wire opens.wire opens.entire).symm

theorem Opens.whole {p : Packet} (opens : w.Opens c s p parcel rest) : p.whole :=
  opens.entire.of_wire opens.wire

theorem Reads.connected_seat (reads : w.Reads c s) (seated : w.Seated) :
    (w.exchange t).live (w.seat c) = true := by
  simp [exchange, slot_seat seated reads.connected]

variable {p : Packet}

/-- Data of a transfer goes to those that accepted it. -/
theorem data_steps (seated : w.Seated) (reads : w.Reads c s) (orderly : s.Orderly)
    (opens : w.Opens c s p parcel rest) (type : p.type? = some .transferData) :
    Steps (w.exchange t)
      (w.after c rest parcel.source (dataPlan s c).1 (dataPlan s c).2.tables t) := by
  have tables : (dataPlan s c).2.tables = w.server.db.tables := by
    rw [← reads.db, dataPlan, relayPlan, dbGetClientAllAccepted_snd]
    rfl
  rw [tables]
  by_cases here : p.tId = t
  · subst here
    have seen : parcel.upView p.tId = some (.data p.payload) := by
      rw [opens.view]
      simp [Parcel.upView, type]
    have shown : Parcel.downView p.tId ⟨p, parcel.source⟩ = some (.data p.payload) := by
      simp [Parcel.downView, type]
    have heard := heard_relay seated reads orderly (Eq.refl s.db.tables) orderly.tidy.works shown
    rw [dataPlan, opens.held]
    refine .single ?_
    have step := Step.relay (reads.connected_seat seated) (takes_seen opens.first seen)
    rw [Exchange.relay, ← funext heard] at step
    exact step
  · refine steps_unseen opens.first ?_ (fun _ => rfl) fun n => ?_
    · rw [opens.view]
      simp [Parcel.upView, here]
    · rw [dataPlan, opens.held]
      exact heard_relay_other (by simp [Parcel.downView, here]) n

/-- The end of a transfer, if its owner says so, goes to those that accepted it. -/
theorem complete_steps (seated : w.Seated) (reads : w.Reads c s) (orderly : s.Orderly)
    (opens : w.Opens c s p parcel rest) (type : p.type? = some .transferComplete) :
    Steps (w.exchange t)
      (w.after c rest parcel.source (completePlan s c).1 (completePlan s c).2.tables t) := by
  let read := (dbGetTransfer s.db (s.client c).id).2
  have works : ∀ n, read.outcome n = none := by
    rw [show read = s.db.tick.2 from dbGetTransfer_snd s.db _]
    exact orderly.tidy.works
  have kept : read.tables = s.db.tables := by
    rw [show read = s.db.tick.2 from dbGetTransfer_snd s.db _]
    rfl
  have chosen : completePlan s c = if p.tId ∈ (dbGetTransfer s.db (s.client c).id).1 then
      ((relayPlan s p read p.tId).1, dbCleanupTransfer (relayPlan s p read p.tId).2 p.tId)
      else ([], read) := by
    rw [completePlan, opens.held]
  by_cases member : p.tId ∈ (dbGetTransfer s.db (s.client c).id).1
  · have plan : (completePlan s c).1 = (relayPlan s p read p.tId).1 := by
      rw [chosen, if_pos member]
    have tables : (completePlan s c).2.tables = s.db.tables.without p.tId := by
      have cleaned : (completePlan s c).2 = dbCleanupTransfer (relayPlan s p read p.tId).2 p.tId := by
        rw [chosen, if_pos member]
      have after : (relayPlan s p read p.tId).2 = read.tick.2 := dbGetClientAllAccepted_snd read p.tId
      have statements : read.tick.2.Works 2 := fun k _ => works _
      rw [cleaned, after, statements.cleanupTransfer p.tId, Database.after_tables,
        Database.tick_tables, kept]
    rw [plan, tables]
    by_cases here : p.tId = t
    · subst here
      have seen : parcel.upView p.tId = some .complete := by
        rw [opens.view]
        simp [Parcel.upView, type]
      have shown : Parcel.downView p.tId ⟨p, parcel.source⟩ = some .complete := by
        simp [Parcel.downView, type]
      have heard := heard_relay seated reads orderly kept works shown
      have ends : Move (w.exchange p.tId) (((w.exchange p.tId).takes (w.seat c)
          (rest.filterMap (Parcel.upView p.tId))).posts
            (w.heard p.tId parcel.source (relayPlan s p read p.tId).1)) := by
        refine .ends (takes_seen opens.first seen) (reads.connected_seat seated) _ fun n => ?_
        rw [heard]
        split
        · exact .inr ⟨‹_›, rfl⟩
        · exact .inl rfl
      refine .tail (.single (.move ends)) (.move (.forgets _ fun n => .inr ?_))
      simp [World.rows, Tables.without_row]
    · refine steps_unseen opens.first ?_ (fun id => ?_) fun n => ?_
      · rw [opens.view]
        simp [Parcel.upView, here]
      · rw [Tables.without_row, if_neg (Ne.symm here), reads.db]
      · exact heard_relay_other (by simp [Parcel.downView, here]) n
  · have silent (n : Nat) : w.heard t parcel.source [] n = [] :=
      heard_nothing (fun _ member => by cases member) n
    rw [chosen, if_neg member, kept, reads.db]
    by_cases here : p.tId = t
    · subst here
      have seen : parcel.upView p.tId = some .complete := by
        rw [opens.view]
        simp [Parcel.upView, type]
      rw [after, posts_nothing silent]
      exact .single (.move (.drops (takes_seen opens.first seen) rfl))
    · refine steps_unseen opens.first ?_ (fun _ => rfl) silent
      rw [opens.view]
      simp [Parcel.upView, here]

/-- An answer changes the row of the client that sent it. -/
theorem reply_rows (seated : w.Seated) (reads : w.Reads c s) (orderly : s.Orderly) (accept : Bool) :
    w.rows t (dbClientAccept s.db (s.client c).id t accept).tables =
      Function.update (w.exchange t).row (w.seat c)
        (if (w.exchange t).row (w.seat c) = .none then .none
          else if accept then .accepted else .denied) := by
  have live : s.Live c := (reads.live c).mpr reads.connected
  have before (n : Nat) : (w.exchange t).row n =
      if (w.slot n).isSome then s.db.tables.row t (w.ids n) else .none := by
    rw [reads.db]
    rfl
  funext n
  rw [World.rows, accepted_row orderly.tidy.works]
  by_cases own : n = w.seat c
  · subst own
    rw [Function.update_self, before, slot_seat seated reads.connected, reads.seat seated live]
    simp
  · rw [Function.update_of_ne own, before]
    cases found : w.slot n with
    | none => rfl
    | some i =>
      obtain ⟨there, seat⟩ := (slot_some seated).mp found
      have other : w.ids n ≠ (s.client c).id := fun same => by
        rw [← seat, reads.seat seated ((reads.live i).mpr there)] at same
        exact own (by rw [← seat, orderly.distinct i c ((reads.live i).mpr there) live same])
      simp [other]

/-- An answer is recorded, and the owner told of it. -/
theorem reply_steps (seated : w.Seated) (reads : w.Reads c s) (orderly : s.Orderly)
    (opens : w.Opens c s p parcel rest) (type : p.type? = some .transferReply) :
    Steps (w.exchange t)
      (w.after c rest parcel.source (replyPlan s c).1 (replyPlan s c).2.tables t) := by
  let q := p.storeInt64 16 (s.client c).id
  have kind : Packet.type? q = some .transferReply := (Packet.type?_storeInt64 _ _ (by decide)).trans type
  have transfer : Packet.tId q = p.tId := Mem.loadInt64_store_apart _ (.inl (by decide))
  have sender : Packet.hdrFrom q = (s.client c).id := Mem.loadInt64_storeInt64 _ (by decide)
  have tables : (replyPlan s c).2.tables =
      (dbClientAccept s.db (s.client c).id p.tId (p.replyAccept ≠ 0)).tables := by
    rw [replyPlan, replyCreator, opens.held, dbGetCreatorByTid_snd]
    rfl
  have copies : ∀ send ∈ (replyPlan s c).1, ∀ old, send.2 old = q := by
    intro send member old
    have plan : (replyPlan s c).1 = if (replyCreator s c).1 = 0 then []
        else toConnected s id (fun _ _ => q) [(replyCreator s c).1] := by
      rw [replyPlan, opens.held]
    rw [plan] at member
    split at member
    · cases member
    · obtain ⟨id, -, here⟩ := List.mem_flatMap.mp member
      obtain ⟨r, -, rfl⟩ := Option.map_eq_some_iff.mp (Option.mem_toList.mp here)
      rfl
  rw [tables]
  by_cases here : p.tId = t
  · subst here
    have seen : parcel.upView p.tId = some (.reply (p.replyAccept ≠ 0)) := by
      rw [opens.view]
      simp [Parcel.upView, type]
    have records : Move (w.exchange p.tId) { (w.exchange p.tId).takes (w.seat c)
        (rest.filterMap (Parcel.upView p.tId)) with
          row := w.rows p.tId
            (dbClientAccept s.db (s.client c).id p.tId (p.replyAccept ≠ 0)).tables } := by
      rw [reply_rows seated reads orderly]
      exact .records (takes_seen opens.first seen)
    have answers (send) (member : send ∈ (replyPlan s c).1) (old : Packet) :
        Parcel.downView p.tId ⟨send.2 old, parcel.source⟩ = some (.answer (s.client c).id) := by
      rw [copies send member old]
      simp [Parcel.downView, kind, transfer, sender]
    refine .trans (.single (.move records)) (tells_steps (s.client c).id rfl rfl fun n => ?_)
    obtain ⟨ids, same, views⟩ := heard_told w (s.client c).id
      (fun send member old => .inr (answers send member old)) n
    refine ⟨ids, fun i member => ⟨same i member, ?_⟩, views⟩
    rw [accepted_row orderly.tidy.works, if_pos ⟨rfl, rfl⟩]
    split
    · simp
    · split <;> simp
  · refine steps_unseen opens.first ?_ (fun id => ?_) fun n => ?_
    · rw [opens.view]
      simp [Parcel.upView, here]
    · rw [accepted_row orderly.tidy.works, if_neg fun both => here both.1.symm, reads.db]
    · refine heard_nothing (fun send member old => ?_) n
      rw [copies send member old]
      simp [Parcel.downView, transfer, here]

theorem cancel_view (sender : ClientId) (tId : TransferId) (old : Packet) :
    Parcel.downView t ⟨transferState sender tId .transferCancel old, source⟩ =
      if tId = t then some (.answer sender) else none := by
  obtain ⟨kind, transfer, client⟩ := transferState_cancels sender tId old
  simp only [Parcel.downView, kind, transfer, client]

/-- A cancel takes rows away, and those it concerns are told of who sent it. -/
theorem cancel_steps (orderly : s.Orderly) (reads : w.Reads c s)
    (opens : w.Opens c s p parcel rest) (type : p.type? = some .transferCancel) :
    Steps (w.exchange t)
      (w.after c rest parcel.source (cancelPlan s c).1 (cancelPlan s c).2.tables t) := by
  obtain ⟨cancels, rows⟩ := cancelPlan_rows orderly.tidy c
  rw [opens.held] at cancels rows
  have unseen : parcel.upView t = none := by
    rw [opens.view]
    simp [Parcel.upView, type]
  have views : ∀ send ∈ (cancelPlan s c).1, ∀ old,
      Parcel.downView t ⟨send.2 old, parcel.source⟩ =
        if p.tId = t then some (.answer (s.client c).id) else none := by
    intro send member old
    rw [cancels send member, cancel_view]
  generalize (cancelPlan s c).2.tables = tables at rows ⊢
  generalize (cancelPlan s c).1 = plan at cancels rows views ⊢
  have fewer (id : ClientId) : tables.row t id = w.server.db.tables.row t id ∨ tables.row t id = .none := by
    rw [← reads.db]
    cases rows with
    | owner known =>
      exact Tables.row_fewer orderly.once (fun row member => (List.mem_filter.mp member).1) t id
    | recipient known =>
      exact Tables.row_fewer orderly.once (fun row member => (List.mem_filter.mp member).1) t id
    | stranger => exact .inl rfl
  refine steps_told (s.client c).id opens.first unseen fewer fun n => ?_
  by_cases here : p.tId = t
  · obtain ⟨ids, same, heard⟩ := heard_told w _ (fun send member old => .inr ((views send member
      old).trans (if_pos here))) n
    refine ⟨ids, fun i member => ⟨same i member, ?_⟩, heard⟩
    cases rows with
    | owner known => simp [Tables.without_row, here]
    | recipient known =>
      have gone : Tables.row { s.db.tables with
          transferClients := s.db.tables.transferClients.filter (·.clientId ≠ (s.client c).id) } t
            (s.client c).id = .none := by
        refine Tables.row_none fun row member _ => ?_
        simpa using (List.mem_filter.mp member).2
      exact fun asked => Row.noConfusion (gone.symm.trans asked)
    | stranger =>
      have nothing : w.heard t parcel.source [] n = [] :=
        heard_nothing (fun _ member => by cases member) n
      rw [nothing] at heard
      rw [List.map_eq_nil_iff.mp heard.symm] at member
      cases member
  · have nothing : w.heard t parcel.source plan n = [] :=
      heard_nothing (fun send member old => (views send member old).trans (if_neg here)) n
    exact ⟨[], fun _ member => (by cases member), nothing⟩

/-- What is heard of an answer to `c` and of copies for other clients. -/
theorem heard_grant (seated : w.Seated) (reads : w.Reads c s) (distinct : s.DistinctIds)
    {answer copy : Packet} {ids : List ClientId} (once : ids.Nodup) {one many : Down ClientId UInt8}
    (first : Parcel.downView t ⟨answer, source⟩ = some one)
    (later : Parcel.downView t ⟨copy, source⟩ = some many) (n : Nat) :
    w.heard t source ([(c, fun _ => answer)] ++ toConnected s id (fun _ _ => copy) ids) n =
      (if n = w.seat c then [one] else []) ++
        if (w.exchange t).live n ∧ decide (w.ids n ∈ ids) then [many] else [] := by
  have live : (w.exchange t).live n = (w.slot n).isSome := rfl
  rw [live, World.heard]
  cases found : w.slot n with
  | none =>
    have other : n ≠ w.seat c := fun same => by
      rw [same, slot_seat seated reads.connected] at found
      cases found
    simp [other]
  | some i =>
    have own : c = i ↔ n = w.seat c := by
      obtain ⟨there, seat⟩ := (slot_some seated).mp found
      exact ⟨fun same => by rw [← seat, same], fun same =>
        (seated.apart i c there reads.connected (seat.trans same)).symm⟩
    have single (queue : Queue Packet) : downViews t source
        (queue.made (Plan.toward [(c, fun _ => answer)] i)) = if n = w.seat c then [one] else [] := by
      by_cases same : n = w.seat c
      · simp [Plan.toward, own.mpr same, same, Queue.made, downViews, first]
      · simp [Plan.toward, mt own.mp same, same, Queue.made, downViews]
    have asked : (ids.filter fun id => id = w.ids n) = if w.ids n ∈ ids then [w.ids n] else [] := by
      rw [List.filter_eq, once.count]
      split <;> rfl
    have copies (queue : Queue Packet) : downViews t source
        (queue.made ((toConnected s id (fun _ _ => copy) ids).toward i)) =
          if w.ids n ∈ ids then [many] else [] := by
      rw [downViews_toConnected (fun _ => some many) seated reads distinct found fun _ _ _ => later]
      simp only [id, asked]
      split <;> rfl
    dsimp only
    rw [Plan.toward_append, Queue.made_append, downViews_append, single, copies]
    simp

/-- A request that is granted is answered and passed on to those it names. -/
theorem grant_steps (seated : w.Seated) (reads : w.Reads c s) (orderly : s.Orderly)
    (opens : w.Opens c s p parcel rest) (type : p.type? = some .transferRequest)
    {tId : TransferId} {next : Database} (grants : s.db.Grants (s.client c).id p.named tId next)
    (once : p.named.Nodup)
    (unknown : ∀ n, (w.slot n).isSome → ((w.exchange tId).side n).Blank) :
    Steps (w.exchange t)
      (w.after c rest parcel.source (grantPlan s c p tId) next.tables t) := by
  have unseen : parcel.upView t = none := by
    rw [opens.view]
    simp [Parcel.upView, type]
  have linked : ∀ row ∈ s.db.tables.transferClients, row.transferId ≠ tId := by
    intro row member
    obtain ⟨transfer, held, same⟩ := orderly.tidy.linked.transfers row member
    exact same ▸ grants.unused transfer held
  have valid : (transferResponse p .transferValid tId).type? = some .transferValid :=
    transferResponse_type p tId
  have answer : (transferResponse p .transferValid tId).tId = tId := transferResponse_tId p tId
  have names := valid_named p tId
  have kind := (requestCopy_type p (s.client c).id tId).trans type
  have transfer := requestCopy_tId p (s.client c).id tId
  change Steps _ (w.after c rest parcel.source ([(c, fun _ => transferResponse p .transferValid tId)] ++
    toConnected s id (fun _ _ => requestCopy p (s.client c).id tId) p.named) next.tables t)
  generalize transferResponse p .transferValid tId = first at valid answer names ⊢
  generalize requestCopy p (s.client c).id tId = copy at kind transfer ⊢
  by_cases here : t = tId
  · subst here
    have told : Parcel.downView t ⟨first, parcel.source⟩ =
        some (.valid parcel.source fun id => decide (id ∈ p.named)) := by
      simp only [Parcel.downView, answer, valid, names, if_true]
    have asked : Parcel.downView t ⟨copy, parcel.source⟩ = some (.request parcel.source) := by
      simp only [Parcel.downView, transfer, kind, if_true]
    have heard := heard_grant seated reads orderly.distinct once told asked
    have granted : Step (w.exchange t) ((w.exchange t).grant (w.seat c) parcel.source
        fun id => decide (id ∈ p.named)) :=
      .grant (reads.connected_seat seated) unknown _ _
    rw [after, takes_unseen opens.first unseen]
    refine .single ((congrArg (Step _) ?_).mpr granted)
    refine Exchange.same rfl rfl (fun n => ?_) fun n => ?_
    · simp only [Exchange.grant, rows, grants.row linked, exchange]
      by_cases live : (w.slot n).isSome
      · by_cases named : w.ids n ∈ p.named
        · simp [live, named]
        · simp [live, named]
      · simp [live]
    · have same : (w.exchange t).name = w.ids := rfl
      simp only [Exchange.grant, Exchange.posts, heard, same]
  · refine steps_unseen opens.first unseen (fun id => ?_) fun n => ?_
    · rw [grants.row linked, if_neg here, reads.db]
    · refine heard_nothing (fun send member old => ?_) n
      rcases List.mem_append.mp member with one | many
      · rw [List.mem_singleton.mp one]
        exact Parcel.downView_other fun same => here (same.symm.trans answer)
      · obtain ⟨id, -, found⟩ := List.mem_flatMap.mp many
        obtain ⟨r, -, rfl⟩ := Option.map_eq_some_iff.mp (Option.mem_toList.mp found)
        exact Parcel.downView_other fun same => here (same.symm.trans transfer)

end Handlers

end World

end Quickshare
