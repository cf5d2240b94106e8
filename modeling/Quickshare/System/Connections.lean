import Quickshare.System.Handling

/-! Clients come and go. What the server does without a packet of a client leaves the
transfers alone, takes a client in or lets one go. -/

namespace Quickshare

open Bytes Runs Relay

section Server

variable {s t u : Server} {c i : Slot} {fd : Int} {deleted : Bool} {plan : Plan}

/-- Nobody comes or goes, nothing is sent and no row changes. -/
structure Server.Rests (s u : Server) : Prop where
  live : ∀ i, u.Live i ↔ s.Live i
  id : ∀ i, (u.client i).id = (s.client i).id
  sent : u.sent = s.sent
  rows : u.db.tables.transferClients = s.db.tables.transferClients

/-- A client has been taken into the slot `i`. -/
structure Server.Admits (s u : Server) (i : Slot) : Prop where
  new : ¬ s.Live i
  live : u.Live i
  others : ∀ j, j ≠ i → u.client j = s.client j
  sent : u.sent = s.sent
  db : u.db = s.db

/-- The client `c` has gone, and `plan` was sent to those that stay. -/
structure Server.Departs (s u : Server) (c : Slot) (plan : Plan) : Prop where
  there : s.Live c
  gone : ¬ u.Live c
  others : ∀ i, i ≠ c → (u.Live i ↔ s.Live i)
  id : ∀ i, i ≠ c → (u.client i).id = (s.client i).id
  arrived : ∀ i, u.Live i → s.arrived u i = (s.client i).msgQueue.made (plan.toward i)
  cancels : ∀ send ∈ plan, ∀ old, (send.2 old).aside ∨ ∃ tId, tId ≠ 0 ∧
    send.2 old = transferState (s.client c).id tId .transferCancel old
  rows : ∀ t id, u.db.tables.row t id = s.db.tables.row t id ∨ u.db.tables.row t id = .none
  settled : plan = [] ∨ ∀ t, u.db.tables.row t (s.client c).id = .none

theorem Server.Rests.refl (s : Server) : s.Rests s := ⟨fun _ => .rfl, fun _ => rfl, rfl, rfl⟩

/-- One client changes in what nobody else is concerned with. -/
theorem Server.Rests.modify (s : Server) (i : Slot) (f : Client → Client)
    (live : (f (s.client i)).state = .empty ↔ (s.client i).state = .empty)
    (id : (f (s.client i)).id = (s.client i).id) : s.Rests (s.modify i f) where
  live j := by
    by_cases here : j = i
    · subst here
      rw [Server.Live, Server.client_modify_self, Ne, live]
      rfl
    · rw [Server.Live, Server.client_modify_of_ne _ _ here]
      rfl
  id j := by
    by_cases here : j = i
    · subst here
      rw [Server.client_modify_self, id]
    · rw [Server.client_modify_of_ne _ _ here]
  sent := rfl
  rows := rfl

/-! Departures -/

/-- What a client that leaves has told the others is that its transfers are off. -/
theorem farewellPlan_cancels (sound : s.db.tables.Sound) :
    ∀ send ∈ farewellPlan s c s.db.tables, ∀ old, ∃ tId, tId ≠ 0 ∧
      send.2 old = transferState (s.client c).id tId .transferCancel old := by
  intro send member old
  rcases List.mem_append.mp member with own | joined
  · obtain ⟨tId, created, listed⟩ := List.mem_flatMap.mp own
    obtain ⟨id, -, found⟩ := List.mem_flatMap.mp listed
    obtain ⟨r, -, rfl⟩ := Option.map_eq_some_iff.mp (Option.mem_toList.mp found)
    exact ⟨tId, sound.nonzero (Tables.mem_created.mp created), rfl⟩
  · obtain ⟨info, listed, found⟩ := List.mem_flatMap.mp joined
    obtain ⟨r, -, rfl⟩ := Option.map_eq_some_iff.mp (Option.mem_toList.mp found)
    obtain ⟨-, known⟩ := Tables.mem_joined.mp listed
    rw [Tables.without_all] at known
    exact ⟨info.tId, sound.nonzero (List.mem_filter.mp known).1, rfl⟩

/-- The plan of a client that leaves, and the rows that stay. -/
theorem leavingPlan_parts (tidy : s.db.Tidy) (sound : s.db.tables.Sound) (once : s.db.Unrepeated) :
    (∀ send ∈ (leavingPlan s c).1, ∀ old, (send.2 old).aside ∨ ∃ tId, tId ≠ 0 ∧
      send.2 old = transferState (s.client c).id tId .transferCancel old) ∧
    (∀ t id, (leavingPlan s c).2.tables.row t id = s.db.tables.row t id ∨
      (leavingPlan s c).2.tables.row t id = .none) ∧
    ((leavingPlan s c).1 = [] ∨ ∀ t, (leavingPlan s c).2.tables.row t (s.client c).id = .none) := by
  unfold leavingPlan
  by_cases complete : (s.client c).state = .complete
  · obtain ⟨plan, tables, -⟩ := disconnectPlan_works (c := c) sound tidy.closed fun n _ => tidy.works _
    simp only [if_pos complete, plan, tables]
    refine ⟨fun send member old => ?_, fun t id => ?_, .inr fun t => ?_⟩
    · rcases List.mem_append.mp member with farewell | goodbye
      · exact .inr (farewellPlan_cancels sound send farewell old)
      · rw [goodbyePlan_copies] at goodbye
        obtain ⟨i, -, rfl⟩ := List.mem_map.mp goodbye
        have type : (singleUserPacket (s.client c) .serverDelUsers).type? = some .serverDelUsers := by
          simp only [singleUserPacket]
          rw [Packet.type?_write _ _ (by decide), Packet.type?_storeInt64 _ _ (by decide),
            Packet.type?_packetHdr]
        exact .inl (.of_type type rfl)
    · exact Tables.row_fewer once (fun row member => (List.mem_filter.mp member).1) t id
    · refine Tables.row_none fun row member _ => ?_
      simpa using (of_decide_eq_true (List.mem_filter.mp member).2).2
  · rw [if_neg complete]
    exact ⟨fun _ member => (by cases member), fun _ _ => .inl rfl, .inl rfl⟩

/-- What `close_client` does with a client it finds. -/
theorem closeClient_departs (orderly : s.Orderly) (listed : deleted = true ∧ fd ∈ s.epoll)
    (found : clientFind s.clients fd = some c) (done : closeClient s fd deleted = .ok u) :
    ∃ plan, s.Departs u c plan := by
  rw [closeClient_eq, if_pos listed] at done
  simp only [found] at done
  obtain ⟨v, left, done⟩ := bind_ok done
  cases done
  have sends := leaveSession_sends { s with epoll := s.epoll.erase fd } c
  have same := sends.same
  rw [left] at same
  have same : SameClients s v := same
  have posts := sends.posts (orderly.queues.of_queues fun _ => rfl) left
  rw [left] at sends
  have here : clientFind v.clients fd = some c := (same.find fd).trans found
  have gone : (v.closed fd).client c = (v.client c).freed := clientClose_self here
  have kept {i : Slot} (ne : i ≠ c) : (v.closed fd).client i = v.client i :=
    clientClose_of_ne fun other => ne (Option.some.inj (other.symm.trans here))
  have posts : s.Posts (leavingPlan { s with epoll := s.epoll.erase fd } c).1 (v.closed fd) :=
    posts.congr (fun _ => rfl) rfl (v.closed_queue fd) rfl
  obtain ⟨cancels, rows, settled⟩ := leavingPlan_parts (s := { s with epoll := s.epoll.erase fd })
    (c := c) orderly.tidy orderly.sound orderly.once
  have db : (v.closed fd).db = (leavingPlan { s with epoll := s.epoll.erase fd } c).2 := sends.db_ok
  rw [← db] at rows settled
  refine ⟨_, (clientFind_some found).1, ?_, fun i ne => ?_, fun i ne => ?_, fun i _ => posts.arrived i,
    cancels, rows, settled⟩
  · simp [Server.Live, gone, Client.freed]
  · rw [Server.Live, kept ne]
    exact same.live i
  · rw [kept ne]
    exact same.id i

/-! What an event does that delivers no packet -/

theorem Server.Departs.written {d e : Client} (departs : (s.modify c fun _ => d).Departs u c plan)
    (before : (s.client c).Written d) (after : (u.client c).Written e) :
    s.Departs (u.modify c fun _ => e) c plan := by
  have other {i : Slot} (ne : i ≠ c) : (s.modify c fun _ => d).client i = s.client i :=
    s.client_modify_of_ne _ ne
  have last {i : Slot} (ne : i ≠ c) : (u.modify c fun _ => e).client i = u.client i :=
    u.client_modify_of_ne _ ne
  have here : (s.modify c fun _ => d).client c = d := s.client_modify_self c _
  have there : d.state ≠ .empty := here ▸ departs.there
  have same : d.id = (s.client c).id := by rw [before.rest]
  have left : ¬ (u.modify c fun _ => e).Live c := by
    rw [Server.Live, u.client_modify_self, after.rest]
    exact departs.gone
  have cancels := departs.cancels
  have settled := departs.settled
  rw [here, same] at cancels settled
  refine ⟨?_, left, fun i ne => ?_, fun i ne => ?_, fun i live => ?_, cancels, departs.rows, settled⟩
  · rw [before.rest] at there
    exact there
  · rw [Server.Live, last ne]
    refine (departs.others i ne).trans ?_
    rw [Server.Live, other ne]
    rfl
  · rw [last ne, departs.id i ne, other ne]
  · have ne : i ≠ c := fun same => left (same ▸ live)
    have heard := departs.arrived i (by rwa [Server.Live, last ne] at live)
    have arrived : s.arrived (u.modify c fun _ => e) i = (s.modify c fun _ => d).arrived u i := by
      simp only [Server.arrived, Server.arrivals, last ne]
      rfl
    rw [arrived, heard, other ne]

theorem accept_admits {conn : Connection} (done : step s (.accept conn) = .ok u) :
    s.Rests u ∨ ∃ i, s.Admits u i := by
  by_cases used : conn.fd ∈ s.openFds ∨ conn.fd ∈ s.epoll
  · rw [step, if_pos used] at done
    cases done
    exact .inl (.refl s)
  · rw [step, if_neg used] at done
    obtain ⟨⟨more, v⟩, accepted, done⟩ := bind_ok done
    cases done
    have unlisted : ¬ (conn.deleted = true ∧ conn.fd ∈ s.epoll) := fun known => used (.inr known.2)
    simp only [acceptOne] at accepted
    cases taken : clientInit s.clients conn.now conn.ssl with
    | none =>
      rw [taken] at accepted
      dsimp only at accepted
      rw [closeClient_eq, if_neg unlisted] at accepted
      cases accepted
      exact .inl ⟨fun _ => .rfl, fun _ => rfl, rfl, rfl⟩
    | some found =>
      obtain ⟨k, clients⟩ := found
      rw [taken] at accepted
      obtain ⟨empty, rfl⟩ := clientInit_some taken
      have self : (s.clients.modify k (clientConfigure conn.now conn.ssl)).list k =
          clientConfigure conn.now conn.ssl (s.clients.list k) := s.clients.modify_self k _
      have others {i : Slot} (ne : i ≠ k) :
          (s.clients.modify k (clientConfigure conn.now conn.ssl)).list i = s.clients.list i :=
        s.clients.modify_of_ne _ ne
      have connected : (clientConfigure conn.now conn.ssl (s.clients.list k)).state ≠ .empty := by
        simp [clientConfigure]
      refine .inr ⟨k, ?_⟩
      by_cases added : conn.added = true ∧ conn.fd ∉ s.epoll
      · simp only [epollAdd, if_pos added] at accepted
        cases accepted
        refine ⟨fun live => live empty, ?_, fun i ne => ?_, rfl, rfl⟩
        · rw [Server.Live, Server.client_modify_self]
          exact fun none => connected (self ▸ none)
        · rw [Server.client_modify_of_ne _ _ ne]
          exact others ne
      · simp only [epollAdd, if_neg added] at accepted
        rw [closeClient_eq, if_neg unlisted] at accepted
        cases accepted
        exact ⟨fun live => live empty, fun none => connected (self ▸ none), fun i ne => others ne, rfl, rfl⟩

theorem write_departs {env : WriteEnv} (orderly : s.Orderly) (done : step s (.write fd env) = .ok u) :
    s.Rests u ∨ ∃ c plan, s.Departs u c plan := by
  rcases writeData_cases orderly.epoll done with
    rfl | ⟨i, d, found, written, rfl | ⟨v, e, closed, listed, again, queue, rfl⟩⟩
  · exact .inl (.refl u)
  · refine .inl (.modify s i (fun _ => d) ?_ ?_)
    · rw [written.rest]
    · rw [written.rest]
  · have seats : SameSeats s (s.modify i fun _ => d) := written.seats
    have live (j : Slot) : (s.modify i fun _ => d).Live j ↔ s.Live j := by
      rw [Server.Live, Server.Live, seats.state]
    have orderly' : (s.modify i fun _ => d).Orderly :=
      ⟨orderly.queues.modify _ (queue (orderly.queues i)), orderly.epoll,
        orderly.distinct.of_live (fun j => (live j).mp) seats.id,
        orderly.named.of_live (fun j => (live j).mp) seats.id, orderly.tidy, orderly.once, orderly.sound⟩
    obtain ⟨plan, departs⟩ := closeClient_departs orderly' listed ((seats.find fd).trans found) closed
    exact .inr ⟨i, plan, departs.written written again⟩

/-- An event that delivers no packet leaves everything as it is, or one client comes or goes. -/
theorem step_moves {e : Event} (orderly : s.Orderly) (quiet : s.delivers e = none)
    (done : step s e = .ok u) :
    s.Rests u ∨ (∃ i, s.Admits u i) ∨ ∃ c plan, s.Departs u c plan := by
  cases e with
  | accept conn => exact (accept_admits done).imp_right .inl
  | handshake fd =>
    have ended : completeHandshake s fd = u := Except.ok.inj done
    unfold completeHandshake at ended
    split at ended
    · exact .inl (ended ▸ .refl s)
    · split at ended
      · rename_i connected
        subst ended
        refine .inl (.modify s _ _ ?_ rfl)
        simp [connected]
      · exact .inl (ended ▸ .refl s)
  | wantMore fd bytes =>
    change sslWantMore s fd bytes = .ok u at done
    unfold sslWantMore at done
    cases found : clientFind s.clients fd with
    | none =>
      rw [found] at done
      cases done
      exact .inl (.refl s)
    | some i =>
      rw [found] at done
      dsimp only at done
      have queued := queueAll_tls (s.client i) (bioPieces bytes.length bytes)
      cases ended : (bioPieces bytes.length bytes).foldlM secureQueueWrite (s.client i) with
      | error fault =>
        rw [ended] at done
        cases done
      | ok d =>
        rw [ended] at done queued
        cases done
        have same : (s.client i).SameButSecure d := queued
        refine .inl (.modify s i (fun _ => d) ?_ ?_)
        · rw [same.rest]
        · rw [same.rest]
  | recv fd chunk =>
    have kept := recv_not_delivers quiet
    rw [done] at kept
    rcases kept with rfl | ⟨c, buf, rfl⟩
    · exact .inl (.refl u)
    · exact .inl (.modify s c _ .rfl rfl)
  | write fd env => exact (write_departs orderly done).imp_right .inr
  | close fd deleted =>
    change closeClient s fd deleted = .ok u at done
    by_cases listed : deleted = true ∧ fd ∈ s.epoll
    · cases found : clientFind s.clients fd with
      | none =>
        rw [closeClient_eq, if_pos listed] at done
        simp only [found] at done
        cases done
        exact .inl ⟨fun _ => .rfl, fun _ => rfl, rfl, rfl⟩
      | some c =>
        obtain ⟨plan, departs⟩ := closeClient_departs orderly listed found done
        exact .inr (.inr ⟨c, plan, departs⟩)
    · rw [closeClient_eq, if_neg listed] at done
      cases done
      exact .inl (.refl s)

end Server

end Quickshare
