import Quickshare.Client.Backlog
import Quickshare.System.Plays

/-! Files go from one client to others through the server as they are. -/

namespace Quickshare

open Bytes Runs Relay

variable {db : Database}

theorem Server.Orderly.init (tidy : db.Tidy) (once : db.Unrepeated) (sound : db.tables.Sound) :
    (Server.init db).Orderly where
  queues := (init_informed db).queues
  epoll := (init_informed db).epoll
  distinct := fun _ _ live => absurd rfl live
  named := fun _ live => absurd rfl live
  tidy := tidy
  once := once
  sound := sound

namespace World

variable {w : World} {n : Nat} {t : TransferId}

/-- Nobody is connected at first. -/
theorem init_slot (db : Database) (n : Nat) : (World.init db).slot n = none := by
  refine List.find?_eq_none.mpr fun i _ => ?_
  have gone : ¬ (World.init db).server.Live i := fun live => live rfl
  simp [gone]

theorem Kept.init (tidy : db.Tidy) (once : db.Unrepeated) (sound : db.tables.Sound) :
    (World.init db).Kept where
  seated := ⟨fun _ _ live => absurd rfl live, fun _ live => absurd rfl live, fun _ live => absurd rfl live⟩
  server := .init tidy once sound
  unborn _ _ := ⟨rfl, rfl, rfl⟩
  managers _ := .init
  up _ _ member := by cases member
  down _ _ member := by cases member
  sound t _ := by
    refine .start (fun n => TransferManager.init_blank t []) (fun n => ?_) fun n m live => ?_
    · simp [exchange, init_slot]
    · simp [exchange, init_slot] at live

/-! What a client stores -/

/-- The process `n` receives the transfer `t` in the slot `i`. -/
def receives (w : World) (n : Nat) (t : TransferId) (i : Fin simTransfersMax) : Prop :=
  ((w.managers n).recvTransfers i).state = .active ∧ ((w.managers n).recvTransfers i).hdr.tId = t

/-- The next packet of the server for the process `n` is of the type and the transfer. -/
def next (w : World) (n : Nat) (type : PacketType) (t : TransferId) : Prop :=
  ∃ parcel ∈ (w.down n).head?, parcel.packet.type? = some type ∧ parcel.packet.tId = t

theorem next_down {type : PacketType} (next : w.next n type t) :
    ∃ parcel rest, w.down n = parcel :: rest ∧ parcel.packet.type? = some type ∧
      parcel.packet.tId = t := by
  obtain ⟨parcel, first, kind, named⟩ := next
  cases down : w.down n with
  | nil => simp [down] at first
  | cons head rest =>
    have same : head = parcel := by simpa [down] using first
    exact ⟨parcel, rest, by rw [same], kind, named⟩

theorem next_complete (next : w.next n .transferComplete t) :
    ∃ rest, ((w.exchange t).side n).down = .complete :: rest := by
  obtain ⟨parcel, rest, down, kind, named⟩ := next_down next
  exact ⟨rest.filterMap (Parcel.downView t), by
    simp [exchange, TransferManager.side, down, Parcel.downView, kind, named]⟩

theorem next_data (next : w.next n .transferData t) :
    ∃ bytes rest, ((w.exchange t).side n).down = .data bytes :: rest := by
  obtain ⟨parcel, rest, down, kind, named⟩ := next_down next
  exact ⟨parcel.packet.payload, rest.filterMap (Parcel.downView t), by
    simp [exchange, TransferManager.side, down, Parcel.downView, kind, named]⟩

/-- The slot that receives a transfer is its view. -/
theorem Kept.receives (kept : w.Kept) {i : Fin simTransfersMax} (receives : w.receives n t i) :
    t ≠ 0 ∧ ((w.exchange t).side n).recv =
      some ⟨false, w.offered n t, ((w.managers n).recvTransfers i).fManager.stored⟩ := by
  obtain ⟨active, named⟩ := receives
  have receiving : ((w.managers n).recvTransfers i).receiving = true := by
    simp [ActiveTransfer.receiving, active]
  have nonzero : t ≠ 0 := named ▸ ((kept.managers n).receives i).known receiving
  refine ⟨nonzero, ((kept.managers n).oneRecv t nonzero (w.offered n t)).view (i := i) ?_⟩
  unfold ActiveTransfer.recvView
  rw [if_pos ⟨receiving, named⟩]
  simp [active]

/-- What has been stored of a file is the beginning of it. -/
def storesPrefix (w : World) : Prop :=
  ∀ n t i, w.receives n t i → ((w.managers n).recvTransfers i).fManager.stored <+: w.offered n t

theorem Kept.storesPrefix (kept : w.Kept) : w.storesPrefix := by
  intro n t i receives
  obtain ⟨nonzero, view⟩ := kept.receives receives
  exact ((kept.sound t nonzero).side n).stored view

/-- The process `n` has not decided on the transfer `t`, which was offered in the slot `i`. -/
def decides (w : World) (n : Nat) (t : TransferId) (i : Fin simTransfersMax) : Prop :=
  ((w.managers n).recvTransfers i).receiving = true ∧
    ((w.managers n).recvTransfers i).state ≠ .active ∧ ((w.managers n).recvTransfers i).hdr.tId = t

theorem Kept.decides (kept : w.Kept) {i : Fin simTransfersMax} (decides : w.decides n t i) :
    t ≠ 0 ∧ ((w.exchange t).side n).recv =
      some ⟨true, w.offered n t, ((w.managers n).recvTransfers i).fManager.stored⟩ := by
  obtain ⟨receiving, inactive, named⟩ := decides
  have nonzero : t ≠ 0 := named ▸ ((kept.managers n).receives i).known receiving
  refine ⟨nonzero, ((kept.managers n).oneRecv t nonzero (w.offered n t)).view (i := i) ?_⟩
  unfold ActiveTransfer.recvView
  rw [if_pos ⟨receiving, named⟩]
  simp [inactive]

/-- Neither a part of a file nor its end finds a client that has not decided on it. -/
def partsExpected (w : World) : Prop :=
  ∀ n t i, w.decides n t i → ¬ w.next n .transferData t ∧ ¬ w.next n .transferComplete t

theorem Kept.partsExpected (kept : w.Kept) : w.partsExpected := by
  intro n t i decides
  obtain ⟨nonzero, view⟩ := kept.decides decides
  have sound := (kept.sound t nonzero).side n
  constructor
  · intro next
    obtain ⟨bytes, rest, first⟩ := next_data next
    cases sound.expected first rfl view
  · intro next
    obtain ⟨rest, first⟩ := next_complete next
    cases sound.expected first rfl view

/-! The owner and its recipients -/

/-- The process `n` is connected. -/
def connected (w : World) (n : Nat) : Prop := (w.slot n).isSome = true

/-- The process `n` has a part of the transfer `t` to send, or some of it is on its way. -/
def owns (w : World) (n : Nat) (t : TransferId) : Prop :=
  (∃ parcel ∈ w.down n, parcel.packet.type? = some .transferValid ∧ parcel.packet.tId = t) ∨
  (∃ i, ((w.managers n).hostTransfers i).hosting = true ∧ ((w.managers n).hostTransfers i).hdr.tId = t) ∨
  ∃ parcel ∈ w.up n, (parcel.packet.type? = some .transferData ∨
    parcel.packet.type? = some .transferComplete) ∧ parcel.packet.tId = t

theorem owns_side (owns : w.owns n t) : ((w.exchange t).side n).owns := by
  rcases owns with ⟨parcel, member, kind, named⟩ | ⟨i, hosting, named⟩ | ⟨parcel, member, kind, named⟩
  · refine .inl ?_
    have seen : parcel.downView t =
        some (.valid parcel.source fun id => decide (id ∈ parcel.packet.named)) := by
      simp [Parcel.downView, kind, named]
    have listed := List.mem_filterMap.mpr ⟨parcel, member, seen⟩
    exact Nat.ne_of_gt (List.countP_pos_iff.mpr ⟨_, listed, rfl⟩)
  · refine .inr (.inl fun none => ?_)
    have empty := TransferArray.none_of_view none i
    simp [ActiveTransfer.hostView, hosting, named] at empty
  · refine .inr (.inr ?_)
    rcases kind with data | complete
    · have seen : parcel.upView t = some (.data parcel.packet.payload) := by
        simp [Parcel.upView, data, named]
      exact ⟨_, List.mem_filterMap.mpr ⟨parcel, member, seen⟩, rfl⟩
    · have seen : parcel.upView t = some .complete := by
        simp [Parcel.upView, complete, named]
      exact ⟨_, List.mem_filterMap.mpr ⟨parcel, member, seen⟩, rfl⟩

/-- No two connected clients own one transfer. -/
def oneOwner (w : World) : Prop :=
  ∀ t ≠ 0, ∀ n k, w.connected n → w.owns n t → w.connected k → w.owns k t → n = k

theorem Kept.oneOwner (kept : w.Kept) : w.oneOwner := fun t nonzero n k one owns other owned =>
  (kept.sound t nonzero).own n k one (owns_side owns) other (owns_side owned)

/-- The bytes of a transfer in the packets. -/
def bytesOf (t : TransferId) (parcels : List Parcel) : List UInt8 :=
  (parcels.filter fun parcel => parcel.packet.type? = some .transferData ∧ parcel.packet.tId = t).flatMap
    fun parcel => parcel.packet.payload

theorem views_bytesOf {View : Type} (view : Parcel → Option View) (bytes : View → List UInt8)
    (same : ∀ parcel : Parcel, (view parcel).elim [] bytes =
      if parcel.packet.type? = some .transferData ∧ parcel.packet.tId = t then parcel.packet.payload else [])
    (parcels : List Parcel) : (parcels.filterMap view).flatMap bytes = bytesOf t parcels := by
  induction parcels with
  | nil => rfl
  | cons parcel rest ih =>
    have first := same parcel
    have later : bytesOf t (parcel :: rest) =
        (if parcel.packet.type? = some .transferData ∧ parcel.packet.tId = t then parcel.packet.payload
          else []) ++ bytesOf t rest := by
      by_cases here : parcel.packet.type? = some .transferData ∧ parcel.packet.tId = t
      · simp [bytesOf, here]
      · simp [bytesOf, here]
    rw [later, ← first, ← ih, List.filterMap_cons]
    cases view parcel <;> rfl

theorem sent_bytesOf (t : TransferId) (n : Nat) :
    ((w.exchange t).side n).sent = bytesOf t (w.up n) := by
  refine views_bytesOf (Parcel.upView t) Up.bytes (fun parcel => ?_) (w.up n)
  unfold Parcel.upView
  by_cases here : parcel.packet.tId = t
  · rw [if_pos here]
    split <;> simp_all [Up.bytes]
  · simp [here]

theorem coming_bytesOf (t : TransferId) (n : Nat) :
    ((w.exchange t).side n).coming = bytesOf t (w.down n) := by
  refine views_bytesOf (Parcel.downView t) Down.bytes (fun parcel => ?_) (w.down n)
  unfold Parcel.downView
  by_cases here : parcel.packet.tId = t
  · rw [if_pos here]
    split <;> simp_all [Down.bytes]
  · simp [here]

/-- What a client that accepted has stored, what is on its way to it, what is on its way
from the owner and what the owner has still to send make up the file. -/
def losesNothing (w : World) : Prop :=
  ∀ n h t i j, w.connected n → w.connected h → w.server.db.tables.row t (w.ids n) = .accepted →
    w.receives n t i → ((w.managers h).hostTransfers j).hosting = true →
    ((w.managers h).hostTransfers j).hdr.tId = t →
      ((w.managers n).recvTransfers i).fManager.stored ++ bytesOf t (w.down n) ++ bytesOf t (w.up h) ++
        ((w.managers h).hostTransfers j).fManager.remaining = w.offered n t

theorem Kept.losesNothing (kept : w.Kept) : w.losesNothing := by
  intro n h t i j one other accepted receives hosting named
  obtain ⟨nonzero, view⟩ := kept.receives receives
  have shown : ((w.managers h).hostTransfers j).hostView t =
      some ⟨decide (((w.managers h).hostTransfers j).state = .active),
        ((w.managers h).hostTransfers j).fManager.remaining, ((w.managers h).hostTransfers j).awaits⟩ := by
    rw [ActiveTransfer.hostView, if_pos ⟨hosting, named⟩]
  have host : ((w.exchange t).side h).host = _ := ((kept.managers h).oneHost t nonzero).view shown
  have row : (w.exchange t).row n = .accepted := (if_pos one).trans accepted
  have parts := (kept.sound t nonzero).parts n h _ _ (.inl row) view other (.inr (.inl ⟨_, host, rfl⟩))
  rwa [coming_bytesOf, sent_bytesOf] at parts

/-- What holds of every transfer along every run whose steps are allowed. -/
theorem transfers_kept (tidy : db.Tidy) (once : db.Unrepeated) (sound : db.tables.Sound)
    (events : List Event) (spared : Guarded World.step allowed (World.init db) events) :
    Throughout World.step (fun w => w.storesPrefix ∧ w.partsExpected ∧ w.oneOwner ∧ w.losesNothing)
      (World.init db) events := by
  apply spared.throughout (Kept.init tidy once sound)
  · exact fun _ _ _ kept allowed done => kept.step allowed done
  · exact fun _ kept => ⟨kept.storesPrefix, kept.partsExpected, kept.oneOwner, kept.losesNothing⟩

/-! What a client records -/

/-- From `w` to `w'` the process `n` records the transfer of its slot `i` COMPLETE. -/
def recordsComplete (w w' : World) (n : Nat) (i : Fin simTransfersMax) : Prop :=
  TransferManager.emptied (w.managers n) (w'.managers n) (.recv i) ∧
    (w'.managers n).backlog =
      (w.managers n).backlog ++ [⟨.complete, ((w.managers n).recvTransfers i).file⟩]

/-- What was stored of a transfer that is recorded COMPLETE is the file that was offered. -/
def storesWhole (w : World) (e : Event) : Prop :=
  ∀ w', w.step e = .ok w' → ∀ n < w.joined, ∀ i, w.recordsComplete w' n i →
    ((w.managers n).recvTransfers i).fManager.stored =
      w.offered n ((w.managers n).recvTransfers i).hdr.tId

/-- A request goes out with all of the file that was opened for it. -/
def asksForWhole (w : World) : Event → Prop
  | .work n env old => ∀ m s q, (w.managers n).step (.work env old) = .ok m →
      (w.managers n).emission (.work env old) = some (s, q) → q.type? = some .transferRequest →
      ∃ path content, (((w.managers n).processCmds env).slot s).fManager.fileFd =
        some ⟨path, content, [], false, 0⟩ ∧ w.emitted n env old = [⟨q, content⟩]
  | _ => True

/-- The server leaves the clients as they are. -/
theorem serve_managers {e : Quickshare.Event} (done : w.serve e = .ok w') :
    w'.managers = w.managers := by
  have served (s : Server) (source : List UInt8) : (w.served s source).managers = w.managers := by
    unfold World.served
    dsimp only
    split <;> rfl
  unfold World.serve at done
  split at done
  · split at done
    · cases done
    · cases done
      exact served _ _
  · split at done
    · cases done
      rfl
    · split at done
      · split at done
        · cases done
        · cases done
          exact served _ _
      · cases done
        rfl

/-- The next packet of the server for the process `n` has arrived as `p`. -/
def arrives (w : World) (n : Nat) (p : Packet) : Prop :=
  ∃ parcel rest, w.down n = parcel :: rest ∧ p.wire = parcel.packet.wire

theorem work_managers {env : WorkEnv} {old : Packet} : (w.work n env old).managers = w.managers ∨
    ∃ m, (w.managers n).step (.work env old) = .ok m ∧
      (w.work n env old).managers = Function.update w.managers n m := by
  unfold World.work
  cases taken : (w.managers n).step (.work env old) with
  | error _ => exact .inl rfl
  | ok m => exact .inr ⟨m, rfl, rfl⟩

theorem receive_managers {env : PacketEnv} {p : Packet} : (w.receive n env p).managers = w.managers ∨
    ∃ m, w.arrives n p ∧ (w.managers n).step (.packet env p) = .ok m ∧
      (w.receive n env p).managers = Function.update w.managers n m := by
  unfold World.receive
  cases down : w.down n with
  | nil => exact .inl rfl
  | cons parcel rest =>
    dsimp only
    split
    · rename_i same
      cases taken : (w.managers n).step (.packet env p) with
      | error _ => exact .inl rfl
      | ok m => exact .inr ⟨m, ⟨parcel, rest, down, same⟩, rfl, rfl⟩
    · exact .inl rfl

/-- A step does to a client nothing, or what the client does on one event. -/
theorem step_client {e : Event} (done : w.step e = .ok w') (n : Nat) :
    w'.managers n = w.managers n ∨ ∃ event, (w.managers n).step event = .ok (w'.managers n) ∧
      ∀ env p, event = .packet env p → w.arrives n p := by
  have updated {k : Nat} {m : TransferManager} {event : ManagerEvent}
      (taken : (w.managers k).step event = .ok m)
      (first : ∀ env p, event = .packet env p → w.arrives k p)
      (now : w'.managers = Function.update w.managers k m) :
      w'.managers n = w.managers n ∨ ∃ event, (w.managers n).step event = .ok (w'.managers n) ∧
        ∀ env p, event = .packet env p → w.arrives n p := by
    by_cases here : n = k
    · subst here
      exact .inr ⟨event, by rw [now, Function.update_self, taken], first⟩
    · exact .inl (by rw [now, Function.update_of_ne here])
  cases e with
  | server e => exact .inl (congrFun (serve_managers done) n)
  | intro k session old =>
    cases done
    exact .inl (by split <;> rfl)
  | cmd k cmd =>
    by_cases born : k < w.joined
    · simp only [World.step, if_pos born] at done
      cases done
      exact updated (rfl : (w.managers k).step (.cmd cmd) = .ok _) (fun _ _ same => by cases same) rfl
    · simp only [World.step, if_neg born] at done
      cases done
      exact .inl rfl
  | work k env old =>
    by_cases born : k < w.joined
    · simp only [World.step, if_pos born] at done
      cases done
      rcases w.work_managers with same | ⟨m, taken, now⟩
      · exact .inl (congrFun same n)
      · exact updated taken (fun _ _ same => by cases same) now
    · simp only [World.step, if_neg born] at done
      cases done
      exact .inl rfl
  | packet k env p =>
    by_cases born : k < w.joined
    · simp only [World.step, if_pos born] at done
      cases done
      rcases w.receive_managers with same | ⟨m, first, taken, now⟩
      · exact .inl (congrFun same n)
      · refine updated taken (fun env q equal => ?_) now
        cases equal
        exact first
    · simp only [World.step, if_neg born] at done
      cases done
      exact .inl rfl

theorem Kept.storesWhole (kept : w.Kept) (e : Event) : w.storesWhole e := by
  intro w' done n _ i ⟨gone, recorded⟩
  rcases step_client done n with same | ⟨event, taken, next⟩
  · rw [same] at gone
    exact absurd gone.2 gone.1
  · obtain ⟨env, p, rfl, type, found⟩ := TransferManager.finishes_of_recorded taken gone recorded
    obtain ⟨parcel, rest, down, same⟩ := next env p rfl
    have here := TransferArray.search_some found
    simp only [TransferManager.completes, decide_eq_true_eq] at here
    obtain ⟨nonzero, view⟩ := kept.receives ⟨here.1, here.2.symm⟩
    have whole := (kept.down n parcel (down ▸ List.mem_cons_self)).whole
    have ended : parcel.downView p.tId = some .complete := by
      rw [show parcel.downView p.tId = Parcel.downView p.tId ⟨p, parcel.source⟩ from
        (Parcel.downView_of_wire same whole).symm]
      simp [Parcel.downView, type]
    have first : ((w.exchange p.tId).side n).down =
        .complete :: rest.filterMap (Parcel.downView p.tId) := by
      simp [exchange, TransferManager.side, down, ended]
    rw [← here.2]
    exact ((kept.sound p.tId nonzero).side n).finishes first view rfl

theorem Kept.asksForWhole {e : Event} (kept : w.Kept) (allowed : w.allowed e) : w.asksForWhole e := by
  cases e with
  | work n env old =>
    intro m s q taken emits request
    have orderly := ((w.managers n).processCmds_lapses env (kept.managers n) allowed).orderly
    have worked := TransferManager.step_worked taken
    obtain ⟨i, rfl, asks⟩ := worked.requests s q emits request
    obtain ⟨path, content, opened, remaining⟩ :=
      ((orderly.hosts i).unread (by simp [ActiveTransfer.asking, asks])).remaining
    refine ⟨path, content, opened, ?_⟩
    simp only [emitted, emits, Option.toList_some, List.map_cons, List.map_nil]
    exact congrArg (fun file => [Parcel.mk q file]) remaining
  | _ => trivial

/-- Along every run whose steps are allowed, what a client records COMPLETE is, byte for
byte, the file that its host opened for the request. -/
theorem files_arrive_whole (tidy : db.Tidy) (once : db.Unrepeated) (sound : db.tables.Sound)
    (events : List Event) (spared : Guarded World.step allowed (World.init db) events) :
    Guarded World.step (fun w e => w.asksForWhole e ∧ w.storesWhole e) (World.init db) events := by
  apply spared.transfer (Kept.init tidy once sound)
  · exact fun _ _ _ kept allowed done => kept.step allowed done
  · exact fun _ e kept allowed => ⟨kept.asksForWhole allowed, kept.storesWhole e⟩

instance (w w' : World) (n : Nat) (i : Fin simTransfersMax) : Decidable (w.recordsComplete w' n i) :=
  inferInstanceAs (Decidable ((((w.managers n).recvTransfers i).state ≠ .empty ∧
      ((w'.managers n).recvTransfers i).state = .empty) ∧ (w'.managers n).backlog =
    (w.managers n).backlog ++ [⟨.complete, ((w.managers n).recvTransfers i).file⟩]))

/-- What a packet of the server that is taken records COMPLETE is the file that was offered. -/
def takesWhole (w : World) : Deed → Prop
  | .take n => ∀ parcel ∈ (w.down n).head?, n < w.joined → ∀ k < w.joined, ∀ i,
    w.recordsComplete (w.takes n parcel (w.down n).tail) k i →
      ((w.managers k).recvTransfers i).fManager.stored =
        w.offered k ((w.managers k).recvTransfers i).hdr.tId
  | _ => True

instance (w : World) : (deed : Deed) → Decidable (w.takesWhole deed)
  | .take n => inferInstanceAs (Decidable (∀ parcel ∈ (w.down n).head?, n < w.joined →
      ∀ k < w.joined, ∀ i, w.recordsComplete (w.takes n parcel (w.down n).tail) k i →
        ((w.managers k).recvTransfers i).fManager.stored =
          w.offered k ((w.managers k).recvTransfers i).hdr.tId))
  | .connect .. | .intro .. | .send .. | .ask .. | .work .. => .isTrue trivial

theorem takesWhole_of_stores {deed : Deed} (whole : Guarded World.step storesWhole w (w.events deed)) :
    w.takesWhole deed := by
  cases deed with
  | take n =>
    intro parcel first born k there i records
    cases next : w.down n with
    | nil => simp [next] at first
    | cons head rest =>
      obtain rfl : head = parcel := by simpa [next] using first
      simp only [events, next] at whole
      refine whole.1 (w.takes n head rest) ?_ k there i (by simpa only [next, List.tail_cons] using records)
      simp only [World.step, if_pos born, receive_takes next]
  | _ => trivial

/-- Two clients meet, and the first offers the second a file of one byte. -/
def offering : List Deed :=
  [.connect 4 100, .connect 5 101, .intro 0 true, .send 0 4, .take 0, .intro 1 false, .send 1 5,
    .take 0, .take 1, .take 1, .ask 0 fileRequest, .work 0 (.oneByteAt 0), .send 0 4, .take 0, .take 1]

/-- The second accepts, and gets all of the file. -/
def sending : List Deed :=
  [.ask 1 (.reply 1 true), .work 1 (.oneByteAt 0), .send 1 5, .take 0, .work 0 (.oneByteAt 1000000), .send 0 4, .take 1,
    .work 0 (.oneByteAt 2000000), .send 0 4, .take 1]

/-- The second accepts, but before that is heard the first cancels and offers its file
anew. The old answer starts the new transfer, which the second accepts in its midst. -/
def lateReply : List Deed :=
  [.ask 1 (.reply 1 true), .work 1 (.oneByteAt 0), .ask 0 (.cancel 1), .work 0 (.oneByteAt 0), .send 0 4, .ask 0 fileRequest,
    .work 0 (.oneByteAt 0), .send 0 4, .send 1 5, .take 0, .take 0, .take 1, .take 1, .work 0 (.oneByteAt 1000000), .send 0 4,
    .take 1, .ask 1 (.reply 1 true), .work 1 (.oneByteAt 0), .work 0 (.oneByteAt 2000000), .send 0 4, .take 1]

/-- The file that is offered is recorded COMPLETE as it is. -/
theorem files_arrive_whole_sent :
    let sent := (World.init .fresh).play (offering ++ sending)
    Guarded World.step (fun w e => w.asksForWhole e ∧ w.storesWhole e) (World.init .fresh) sent ∧
      (run World.step (World.init .fresh) sent).toOption.map (fun w =>
        ((w.managers 1).backlog, ((w.managers 1).recvTransfers 0).fManager.stored)) =
          some ([⟨.complete, ascii "a"⟩], [1]) := by
  intro sent
  have good : Guarded outcome (fun u deed => u.reads deed ∧ u.spares deed) (World.init .fresh)
      (offering ++ sending) ∧ (run outcome (World.init .fresh) (offering ++ sending)).toOption.map
        (fun w => ((w.managers 1).backlog, ((w.managers 1).recvTransfers 0).fManager.stored)) =
          some ([⟨.complete, ascii "a"⟩], [1]) := by
    decide +kernel
  have same : run World.step (World.init .fresh) sent =
      run outcome (World.init .fresh) (offering ++ sending) :=
    play_run (good.1.mono fun _ _ both => both.1)
  refine ⟨files_arrive_whole fresh_tidy fresh_unrepeated fresh_sound sent (play_allowed good.1), ?_⟩
  rw [same]
  exact good.2

/-- A file of which nothing was stored is recorded COMPLETE. -/
theorem files_arrive_whole_fails : ¬ Guarded World.step storesWhole (World.init .fresh)
    ((World.init .fresh).play (offering ++ lateReply)) := by
  have late : Guarded outcome reads (World.init .fresh) (offering ++ lateReply) ∧
      ¬ Guarded outcome takesWhole (World.init .fresh) (offering ++ lateReply) := by
    decide +kernel
  intro whole
  exact late.2 (((play_guarded late.1).mp whole).mono fun _ _ => takesWhole_of_stores)

end World

end Quickshare
