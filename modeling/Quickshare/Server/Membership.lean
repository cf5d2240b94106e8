import Quickshare.Server.Views

/-! What each event tells of the sessions. A client that leaves is struck off by its
peers, and one that joins is taken up by them and told who they are, by a batch whose
count starts from what its ring slot held. So the views of all clients stay exact as
long as that count is 0. -/

namespace Quickshare

open Runs Bytes

section Leaving

variable {s t u : Server} {c i : Slot} {fd : Int} {deleted : Bool} {log : Log}

/-- `c` is gone, and its peers are told so and nobody else. -/
structure Leaves (s t : Server) (c : Slot) : Prop where
  gone : ¬ t.Live c
  seen : ∀ i, i ≠ c → (t.client i).seen = (s.client i).seen
  live : ∀ i, t.Live i → s.Live i
  heard : ∀ i, t.Live i → ∀ log, viewOf (log ++ s.arrived t i) =
    if (s.client c).state = .complete ∧ s.peer c i then
      (viewOf log).eraseP (·.id = (s.client c).id) else viewOf log

theorem Leaves.views (leaves : Leaves s t c) (distinct : s.DistinctIds) (views : Views s log) :
    Views t (s.logged t log) := by
  have later : ∀ i, t.Live i → viewOf (s.logged t log i) =
      if (s.client c).state = .complete ∧ s.peer c i then
        (viewOf (log i)).eraseP (·.id = (s.client c).id) else viewOf (log i) := fun i live => by
    rw [logged_live (leaves.live i live)]
    exact leaves.heard i live (log i)
  by_cases complete : (s.client c).state = .complete
  · refine views.leave distinct complete leaves.gone leaves.seen leaves.live fun i live => ?_
    rw [later i live]
    simp only [complete, true_and]
  · refine views.congr (fun i => ?_) leaves.live fun i live => ?_
    · by_cases here : i = c
      · subst here
        have empty : (t.client i).state = .empty := by simpa [Server.Live] using leaves.gone
        simp [Client.seen, empty, complete]
      · exact leaves.seen i here
    · rw [later i live, if_neg fun both => complete both.1]

theorem viewOf_goodbye (named : (s.client c).name.length = pcNameMaxLen) (log : List Packet)
    (q : Queue Packet) : viewOf (log ++ q.made ((goodbyePlan s c).toward i)) =
      if s.peer c i then (viewOf log).eraseP (·.id = (s.client c).id) else viewOf log := by
  rw [goodbyePlan_toward]
  by_cases peer : s.peer c i = true
  · obtain ⟨type, id⟩ := singleUser_gone (s.client c) named
    rw [if_pos peer, if_pos peer, viewOf_append]
    exact (heed_delUsers type _).trans (by rw [id])
  · rw [if_neg peer, if_neg peer, Queue.made, List.append_nil]

theorem viewOf_leaving (named : (s.client c).state = .complete →
    (s.client c).name.length = pcNameMaxLen) (log : List Packet) (q : Queue Packet) :
    viewOf (log ++ q.made ((leavingPlan s c).1.toward i)) =
      if (s.client c).state = .complete ∧ s.peer c i then
        (viewOf log).eraseP (·.id = (s.client c).id) else viewOf log := by
  unfold leavingPlan
  by_cases complete : (s.client c).state = .complete
  · rw [if_pos complete, Plan.toward_append, Queue.made_append, ← List.append_assoc,
      viewOf_goodbye (named complete), (disconnectPlan_silent s c).viewOf]
    simp only [complete, true_and]
  · rw [if_neg complete, if_neg fun both => complete both.1]
    exact congrArg viewOf (List.append_nil log)

/-- What `close_client` does with a client it finds. -/
theorem closeClient_leaves (valid : s.QueuesValid) (listed : deleted = true ∧ fd ∈ s.epoll)
    (found : clientFind s.clients fd = some c)
    (named : (s.client c).state = .complete → (s.client c).name.length = pcNameMaxLen)
    (done : closeClient s fd deleted = .ok t) : Leaves s t c := by
  rw [closeClient_eq, if_pos listed] at done
  simp only [found] at done
  obtain ⟨u, left, done⟩ := bind_ok done
  cases done
  have sends := leaveSession_sends { s with epoll := s.epoll.erase fd } c
  have same := sends.same
  rw [left] at same
  have same : SameClients s u := same
  have posts := sends.posts (valid.of_queues fun _ => rfl) left
  have here : clientFind u.clients fd = some c := (same.find fd).trans found
  have gone : (u.closed fd).client c = (u.client c).freed := clientClose_self here
  have kept {i : Slot} (ne : i ≠ c) : (u.closed fd).client i = u.client i :=
    clientClose_of_ne fun other => ne (Option.some.inj (other.symm.trans here))
  have posts : s.Posts (leavingPlan { s with epoll := s.epoll.erase fd } c).1 (u.closed fd) :=
    posts.congr (fun _ => rfl) rfl (u.closed_queue fd) rfl
  refine ⟨?_, fun i ne => ?_, fun i live => ?_, fun i live log => ?_⟩
  · simp [Server.Live, gone, Client.freed]
  · rw [kept ne]
    exact same.seen i
  · exact (same.live i).mp (u.closed_live fd i live)
  · rw [posts.arrived]
    exact viewOf_leaving named log _

/-- Writing for `c` before and after matters to nobody else. -/
theorem Leaves.written {d e : Client} (leaves : Leaves (s.modify c fun _ => d) u c)
    (before : (s.client c).Written d) (after : (u.client c).Written e) :
    Leaves s (u.modify c fun _ => e) c := by
  have first : SameSeats s (s.modify c fun _ => d) := before.seats
  have other {i : Slot} (ne : i ≠ c) : (s.modify c fun _ => d).client i = s.client i :=
    s.client_modify_of_ne _ ne
  have here : (s.modify c fun _ => d).client c = d := s.client_modify_self c _
  have last {i : Slot} (ne : i ≠ c) : (u.modify c fun _ => e).client i = u.client i :=
    u.client_modify_of_ne _ ne
  have gone : ¬ (u.modify c fun _ => e).Live c := by
    have empty : (u.client c).state = .empty := by simpa [Server.Live] using leaves.gone
    rw [Server.Live, u.client_modify_self, after.rest]
    exact not_not.mpr empty
  have alive {i : Slot} (live : (u.modify c fun _ => e).Live i) : i ≠ c ∧ u.Live i := by
    have ne : i ≠ c := fun same => gone (same ▸ live)
    exact ⟨ne, by rwa [Server.Live, last ne] at live⟩
  refine ⟨gone, fun i ne => ?_, fun i live => ?_, fun i live log => ?_⟩
  · rw [last ne, leaves.seen i ne, other ne]
  · obtain ⟨ne, live⟩ := alive live
    have was := leaves.live i live
    rwa [Server.Live, other ne] at was
  · obtain ⟨ne, live⟩ := alive live
    have heard := leaves.heard i live log
    have arrived : s.arrived (u.modify c fun _ => e) i = (s.modify c fun _ => d).arrived u i := by
      simp only [Server.arrived, Server.arrivals, last ne]
      rfl
    have id : d.id = (s.client c).id := by rw [before.rest]
    have state : d.state = (s.client c).state := by rw [before.rest]
    have session : d.sessionId = (s.client c).sessionId := by rw [before.rest]
    have peer : (s.modify c fun _ => d).peer c i = s.peer c i := by
      simp only [Server.peer, other ne, here, id, session]
    rw [arrived, heard, peer, here, id, state]

end Leaving
/-! What an introduction tells -/

/-- Nobody can tell the states apart by who is there and what waits for them. -/
structure SameSights (s t : Server) : Prop where
  seen : ∀ i, (t.client i).seen = (s.client i).seen
  live : ∀ i, t.Live i ↔ s.Live i
  queue : ∀ i, (t.client i).msgQueue = (s.client i).msgQueue
  sent : t.sent = s.sent

namespace SameSights

variable {s t s' t' : Server} {log : Log}

theorem refl (s : Server) : SameSights s s := ⟨fun _ => rfl, fun _ => .rfl, fun _ => rfl, rfl⟩

theorem symm (same : SameSights s t) : SameSights t s :=
  ⟨fun i => (same.seen i).symm, fun i => (same.live i).symm, fun i => (same.queue i).symm,
    same.sent.symm⟩

theorem views (same : SameSights s t) (views : Views s log) : Views t log :=
  views.congr same.seen (fun i => (same.live i).mp) fun _ _ => rfl

theorem logged (first : SameSights s s') (last : SameSights t t') :
    s'.logged t' log = s.logged t log := by
  funext i
  simp only [Server.logged, Server.arrived, Server.arrivals, first.live, last.live, last.queue,
    first.sent, last.sent]

/-- A change of one client that neither it nor anybody else notices. -/
theorem modify (s : Server) (i : Slot) (f : Client → Client)
    (seen : (f (s.client i)).seen = (s.client i).seen)
    (live : (f (s.client i)).state = .empty ↔ (s.client i).state = .empty)
    (queue : (f (s.client i)).msgQueue = (s.client i).msgQueue) : SameSights s (s.modify i f) where
  seen := fun j => by
    by_cases here : j = i
    · subst here
      rw [Server.client_modify_self, seen]
    · rw [Server.client_modify_of_ne _ _ here]
  live := fun j => by
    by_cases here : j = i
    · subst here
      rw [Server.Live, Server.client_modify_self, Ne, live]
      rfl
    · rw [Server.Live, Server.client_modify_of_ne _ _ here]
      rfl
  queue := fun j => by
    by_cases here : j = i
    · subst here
      rw [Server.client_modify_self, queue]
    · rw [Server.client_modify_of_ne _ _ here]
  sent := rfl

end SameSights

section Joining

variable {s t w : Server} {c i : Slot} {log : Log}

/-- `c` has joined a session; it is told who is there, and they are told of it. -/
structure Joins (s t : Server) (c : Slot) : Prop where
  new : (s.client c).state ≠ .complete
  registered : s.Live c
  complete : (t.client c).state = .complete
  named : (t.client c).name.length = pcNameMaxLen
  seen : ∀ i, i ≠ c → (t.client i).seen = (s.client i).seen
  live : ∀ i, t.Live i → s.Live i
  batch : ∀ log, viewOf log = [] → viewOf (log ++ s.arrived t c) = t.mates c
  heard : ∀ i, i ≠ c → t.Live i → ∀ log, viewOf (log ++ s.arrived t i) =
    if t.peer c i then viewOf log ++ [(t.client c).user] else viewOf log

theorem Joins.views (joins : Joins s t c) (distinct : t.DistinctIds) (views : Views s log) :
    Views t (s.logged t log) := by
  refine views.join distinct joins.new joins.complete joins.named joins.seen joins.live ?_
    fun i other live => ?_
  · rw [logged_live joins.registered]
    exact joins.batch _ (views.blank c joins.registered joins.new)
  · rw [logged_live (joins.live i live)]
    exact joins.heard i other live (log i)

theorem introPlan_self (s : Server) {peers : List Slot} (absent : c ∉ peers) :
    (introPlan s c peers).toward c =
      if peers = [] then [] else [newUsersPacket (peers.map s.client)] := by
  unfold introPlan
  by_cases none : peers = []
  · rw [if_pos none, if_pos none]
    rfl
  · have copies := Plan.toward_copies peers
      (fun _ => singleUserPacket (s.client c) .serverNewUsers) c
    rw [List.count_eq_zero.mpr absent] at copies
    rw [if_neg none, if_neg none, Plan.toward_cons, if_pos rfl]
    exact congrArg _ copies

theorem introPlan_other (s : Server) (peers : List Slot) (other : i ≠ c) :
    (introPlan s c peers).toward i = List.replicate (peers.count i)
      fun _ => singleUserPacket (s.client c) .serverNewUsers := by
  unfold introPlan
  by_cases none : peers = []
  · subst none
    rfl
  · rw [if_neg none, Plan.toward_cons, if_neg (Ne.symm other)]
    exact Plan.toward_copies ..

/-- The ring slot in which the batch for `c` is built counts no users. -/
def Server.batchClean (s : Server) (c : Slot) : Prop :=
  let q := (s.client c).msgQueue.pushed (Packet.packetHdr .serverOk 0)
  Packet.newUsersLen (q.items q.head) = 0

/-- `packet_intro` accepts the packet of `c`, and somebody is in the session. -/
def Server.joinsOthers (s : Server) (c : Slot) : Prop :=
  ¬ ((s.client c).state = .complete ∨ (s.client c).decryptBuf.packet.introSession > 1) ∧
    (s.introduced c).1 ≠ 0 ∧ ∃ i, (s.joined c).peer c i = true

theorem mates_peer (distinct : s.DistinctIds) (complete : (s.client c).state = .complete) (i : Slot) :
    s.mate c i = s.peer c i := by
  by_cases there : (s.client i).state = .complete
  · rw [mate_peer distinct there complete]
    simp only [Server.peer, complete, there, ne_comm, eq_comm]
  · simp [Server.mate, Server.peer, there]

theorem viewOf_batch {log : List Packet} {p : Packet} {peers : List Slot} {old : Packet}
    (silent : p.silent) (clean : peers ≠ [] → old.newUsersLen = 0)
    (few : peers.length ≤ clientListLen)
    (named : ∀ i ∈ peers, (w.client i).name.length = pcNameMaxLen) (none : viewOf log = []) :
    viewOf (log ++ p :: (if peers = [] then [] else [newUsersPacket (peers.map w.client) old])) =
      peers.map fun i => (w.client i).user := by
  have first : viewOf (log ++ [p]) = [] := by
    rw [viewOf_silent log (by simpa using silent), none]
  rw [List.append_cons]
  by_cases alone : peers = []
  · rw [if_pos alone, List.append_nil, first, alone]
    rfl
  · have users := newUsersPacket_listed (clean alone) (peers.map w.client) (by simpa using few)
      (by simpa using named)
    rw [if_neg alone, viewOf_append, first]
    refine (heed_newUsers (newUsersPacket_type _ old) []).trans ?_
    rw [users.2, List.nil_append, List.map_map]
    rfl

/-- An accepted introduction, from the answer on. -/
theorem answered_joins {session : SessionId} {name : List UInt8} (views : Views s log)
    (valid : s.QueuesValid) (live : s.Live c) (distinct : t.DistinctIds)
    (new : (s.client c).state ≠ .complete) (named : name.length = pcNameMaxLen)
    (clean : (∃ i, (s.completed c session name).peer c i = true) → s.batchClean c)
    (answered : serverResponse s c .serverOk = .ok w)
    (done : sendSessionUsers (w.completed c session name) c = .ok t) : Joins s t c := by
  have ok := serverResponse_sends s c .serverOk
  have response := ok.posts valid answered
  have valid' := ok.queuesValid valid
  have same := ok.same
  rw [answered] at valid' same
  have same : SameClients s w := same
  have queues (i : Slot) : ((w.completed c session name).client i).msgQueue = (w.client i).msgQueue :=
    w.completed_queue c i session name
  have sends := sendSessionUsers_sends (w.completed c session name) c
  have told := sends.posts (Server.QueuesValid.of_queues valid' queues) done
  have same' := sends.same
  rw [done] at same'
  have same' : SameClients (w.completed c session name) t := same'
  have here : (w.completed c session name).client c =
    { w.client c with state := .complete, sessionId := session, name } := w.client_modify_self c _
  have other {i : Slot} (ne : i ≠ c) : (w.completed c session name).client i = w.client i :=
    w.client_modify_of_ne _ ne
  have posts := response.trans (told.congr queues rfl (fun _ => rfl) rfl)
  have before := (completed_same same c session name).peer c
  generalize w.completed c session name = v at here other posts before same'
  have complete : (t.client c).state = .complete :=
    (same'.state c).trans (congrArg Client.state here)
  have seen (i : Slot) (ne : i ≠ c) : (t.client i).seen = (s.client i).seen :=
    (same'.seen i).trans ((congrArg Client.seen (other ne)).trans (same.seen i))
  have users (i : Slot) : (t.client i).user = (v.client i).user :=
    same'.field i Client.user fun _ => rfl
  have mates (i : Slot) : t.mate c i = v.peer c i :=
    (mates_peer distinct complete i).trans (same'.peer c i)
  have alone : ¬ v.peer c c = true := by simp [Server.peer]
  have peers {i : Slot} (member : i ∈ (List.finRange maxClients).filter (v.peer c)) :
      v.peer c i = true := (List.mem_filter.mp member).2
  have first : Plan.toward [(c, Packet.packetHdr .serverOk 0)] c = [Packet.packetHdr .serverOk 0] := by
    rw [Plan.toward_cons, if_pos rfl]
    rfl
  refine ⟨new, live, complete, ?_, seen, fun i alive => ?_, fun log none => ?_,
    fun i ne alive log => ?_⟩
  · rw [same'.field c Client.name fun _ => rfl, here]
    exact named
  · by_cases self : i = c
    · exact self ▸ live
    · have was := (same'.live i).mp alive
      rw [Server.Live, other self] at was
      exact (same.live i).mp was
  · have few : ((List.finRange maxClients).filter (v.peer c)).length ≤ clientListLen :=
      (List.length_filter_le ..).trans (by simp [clientListLen])
    have names : ∀ i ∈ (List.finRange maxClients).filter (v.peer c),
        (v.client i).name.length = pcNameMaxLen := by
      intro i member
      have peer := peers member
      have ne : i ≠ c := by
        rintro rfl
        exact alone peer
      have there : (w.client i).state = .complete := by
        rw [← other ne]
        exact (of_decide_eq_true peer).2.1
      rw [other ne, same.field i Client.name fun _ => rfl]
      exact views.named i ((same.state i).symm.trans there)
    have batch := viewOf_batch (Packet.silent.of_type (Packet.type?_packetHdr .serverOk 0
      ((s.client c).msgQueue.items (s.client c).msgQueue.head)) (by decide) (by decide))
      (fun some => by
        obtain ⟨i, member⟩ := List.exists_mem_of_ne_nil _ some
        exact clean ⟨i, (before i).symm.trans (peers member)⟩) few names none
    rw [posts.arrived, Plan.toward_append, first,
      introPlan_self v fun member => alone (peers member), Server.mates,
      List.filter_congr fun i _ => mates i, List.map_congr_left fun i _ => users i, ← batch]
    by_cases empty : (List.finRange maxClients).filter (v.peer c) = []
    · rw [if_pos empty, if_pos empty]
      rfl
    · rw [if_neg empty, if_neg empty]
      rfl
  · have none : Plan.toward [(c, Packet.packetHdr .serverOk 0)] i = [] := by
      rw [Plan.toward_cons, if_neg (Ne.symm ne)]
      rfl
    have once := Lists.count_filter (List.nodup_finRange maxClients) (List.mem_finRange i) (v.peer c)
    have name : (v.client c).name.length = pcNameMaxLen := by
      rw [here]
      exact named
    rw [posts.arrived, Plan.toward_append, introPlan_other v _ ne, once, none, same'.peer, users c]
    by_cases peer : v.peer c i = true
    · obtain ⟨type, listed⟩ := singleUser_new (v.client c) name
      rw [if_pos peer, if_pos peer, viewOf_append, ← listed]
      exact heed_newUsers type _
    · rw [if_neg peer, if_neg peer]
      exact congrArg viewOf (List.append_nil log)

/-- A denial is about nobody. -/
theorem denied_quiet (valid : s.QueuesValid) (denied : serverResponse s c .serverDeny = .ok t) :
    Quiet s t := by
  have sends := serverResponse_sends s c .serverDeny
  have same := sends.same
  rw [denied] at same
  have same : SameClients s t := same
  exact .of_posts same.seen (fun i => (same.live i).mp) (sends.posts valid denied)
    (.response c (by decide) (by decide))

theorem SameSights.terminated (s : Server) (c : Slot) (data : Packet) (db : Database) :
    SameSights s { s.modify c (fun client => { client with
      decryptBuf := { client.decryptBuf with data } }) with db } := by
  have same : SameSights s (s.modify c fun client => { client with
      decryptBuf := { client.decryptBuf with data } }) := .modify s c _ rfl .rfl rfl
  exact ⟨same.seen, same.live, same.queue, same.sent⟩

theorem Server.completed_peer (s : Server) (db : Database) (c i : Slot) (session : SessionId)
    (name : List UInt8) : (Server.completed { s with db } c session name).peer c i =
      (s.completed c session name).peer c i := rfl

theorem packetIntro_views (views : Views s log) (valid : s.QueuesValid) (live : s.Live c)
    (distinct : t.DistinctIds) (clean : s.joinsOthers c → s.batchClean c)
    (done : packetIntro s c = .ok t) : Views t (s.logged t log) := by
  rw [packetIntro_eq] at done
  unfold Server.joinsOthers Server.joined at clean
  by_cases abnormal : (s.client c).state = .complete ∨
      (s.client c).decryptBuf.packet.introSession > 1
  · rw [if_pos abnormal] at done
    exact (denied_quiet valid done).views views
  · rw [if_neg abnormal] at done
    have same : SameSights s { s.terminated c with db := (s.introduced c).2 } :=
      .terminated s c (terminateIntro (s.client c).decryptBuf.packet) (s.introduced c).2
    by_cases refused : (s.introduced c).1 = 0
    · simp only [if_pos refused] at done
      generalize ({ s.terminated c with db := (s.introduced c).2 } : Server) = s' at same done
      rw [← same.logged (.refl t)]
      exact (denied_quiet (valid.of_queues same.queue) done).views (same.views views)
    · simp only [if_neg refused] at done
      obtain ⟨w, answered, done⟩ := bind_ok done
      have named : (terminateIntro (s.client c).decryptBuf.packet).introName.length = pcNameMaxLen :=
        Mem.read_length ..
      generalize (terminateIntro (s.client c).decryptBuf.packet).introName = name at done named clean
      have peers : (∃ i, Server.peer (Server.completed { s.terminated c with db := (s.introduced c).2 } c
          (s.introduced c).1 name) c i = true) → s.batchClean c := by
        rintro ⟨i, peer⟩
        rw [Server.completed_peer] at peer
        exact clean ⟨abnormal, refused, i, peer⟩
      generalize ({ s.terminated c with db := (s.introduced c).2 } : Server) = s'
        at same answered peers
      have kept : s'.batchClean c ↔ s.batchClean c := by
        simp only [Server.batchClean, same.queue c]
      have new : (s'.client c).state ≠ .complete := fun complete =>
        abnormal (.inl ((Client.seen_eq (same.seen c)).1.mp complete))
      have joins := answered_joins (same.views views) (valid.of_queues same.queue)
        ((same.live c).mpr live) distinct new named (fun found => kept.mpr (peers found)) answered done
      rw [← same.logged (.refl t)]
      exact joins.views distinct (same.views views)

end Joining

/-! Every event -/

section Events

variable {s t u : Server} {c i : Slot} {fd : Int} {log : Log}

theorem analizePacket_views (views : Views s log) (valid : s.QueuesValid) (live : s.Live c)
    (distinct : t.DistinctIds)
    (clean : (s.client c).decryptBuf.packet.type? = some .clientIntro → s.joinsOthers c →
      s.batchClean c)
    (done : analizePacket s c = .ok t) : Views t (s.logged t log) := by
  by_cases intro : (s.client c).decryptBuf.packet.type? = some .clientIntro
  · unfold analizePacket at done
    rw [intro] at done
    exact packetIntro_views views valid live distinct (clean intro) done
  · obtain ⟨plan, posts, silent, same⟩ := analizePacket_silent valid intro done
    exact (Quiet.of_posts same.seen (fun i => (same.live i).mp) posts silent).views views

/-- Where a packet lets its client join others, the slot for the batch counts no users. -/
def cleanBatches (s : Server) (e : Event) : Prop :=
  ∀ c t, s.delivers e = some (c, t) → (t.client c).decryptBuf.packet.type? = some .clientIntro →
    t.joinsOthers c → t.batchClean c

instance (s : Server) (c : Slot) : Decidable (s.batchClean c) := inferInstanceAs (Decidable (_ = _))

instance (s : Server) (c : Slot) : Decidable (s.joinsOthers c) := inferInstanceAs (Decidable (_ ∧ _))

instance (s : Server) (e : Event) : Decidable (cleanBatches s e) :=
  decidable_of_iff (∀ found ∈ s.delivers e,
      (found.2.client found.1).decryptBuf.packet.type? = some .clientIntro →
        found.2.joinsOthers found.1 → found.2.batchClean found.1)
    ⟨fun all c t delivers => all (c, t) delivers, fun all found member => all found.1 found.2 member⟩

theorem SameSights.received (s : Server) (c : Slot) (buf : Buffer packetMaxSize) :
    SameSights s (s.received c buf) := .modify s c _ rfl .rfl rfl

theorem SameSights.handed (s : Server) (c : Slot) (buf : Buffer packetMaxSize) :
    SameSights s (s.handed c buf) :=
  have same := received s c buf
  ⟨same.seen, same.live, same.queue, same.sent⟩

theorem SameSights.rewound (s : Server) (c : Slot) : SameSights s (s.rewound c) :=
  .modify s c _ rfl .rfl rfl

theorem recv_views {chunk : List UInt8} (views : Views s log) (valid : s.QueuesValid)
    (distinct : s.DistinctIds) (clean : cleanBatches s (.recv fd chunk))
    (done : step s (.recv fd chunk) = .ok t) : Views t (s.logged t log) := by
  cases delivers : s.delivers (.recv fd chunk) with
  | none =>
    have kept := recv_not_delivers delivers
    rw [done] at kept
    rcases kept with rfl | ⟨c, buf, rfl⟩
    · exact (Quiet.of_sent (fun _ => rfl) (fun _ live => live) rfl).views views
    · have same := SameSights.received s c buf
      exact (Quiet.of_sent same.seen (fun i => (same.live i).mp) rfl).views views
  | some found =>
    obtain ⟨c, r⟩ := found
    have clean := clean c r delivers
    rw [step_delivers delivers] at done
    obtain ⟨other, more, buf, -, attends, rfl⟩ := delivers_received delivers
    obtain ⟨u, handled, done⟩ := bind_ok done
    cases done
    have same := SameSights.handed s c buf
    have live : (s.handed c buf).Live c := (same.live c).mpr (clientFind_some attends).1
    have touched := analizePacket_touches (s.handed c buf) c
    rw [handled] at touched
    have touched : Handled c (s.handed c buf) u := touched
    have received : (s.received c buf).DistinctIds := distinct.modify _ id rfl
    have before : (s.handed c buf).DistinctIds := received
    have last := SameSights.rewound u c
    rw [← same.logged last.symm]
    exact last.views (analizePacket_views (same.views views) (valid.of_queues same.queue) live
      (before.of_live (touched.live live) touched.id) clean handled)

theorem Views.newcomers (views : Views s log)
    (clients : ∀ i, t.client i = s.client i ∨
      (s.client i).state = .empty ∧ (t.client i).state = .connected)
    (sent : t.sent = s.sent) : Views t (s.logged t log) := by
  have seen (i : Slot) : (t.client i).seen = (s.client i).seen := by
    rcases clients i with same | ⟨before, after⟩
    · rw [same]
    · simp [Client.seen, before, after]
  have stays {i : Slot} (live : s.Live i) : viewOf (s.logged t log i) = viewOf (log i) := by
    rw [logged_live live, arrived_none sent, List.append_nil]
  refine ⟨fun r complete => ?_, fun r live apart => ?_, fun r complete => ?_⟩
  · have was := (Client.seen_eq (seen r)).1.mp complete
    rw [stays (by simp [Server.Live, was]), mates_congr seen complete]
    exact views.told r was
  · rcases clients r with same | ⟨before, after⟩
    · have held : s.Live r := by rwa [Server.Live, same] at live
      rw [stays held]
      exact views.blank r held (mt (Client.seen_eq (seen r)).1.mpr apart)
    · have fresh : s.logged t log r = [] :=
        if_pos ⟨fun held => held before, live⟩
      rw [fresh]
      rfl
  · have was := (Client.seen_eq (seen r)).1.mp complete
    rw [(clients r).resolve_right fun both => by simp [both.1] at was]
    exact views.named r was

/-- A connection is taken into a slot that was empty, or changes nothing here. -/
theorem acceptOne_newcomer {conn : Connection} {more : Bool} (unknown : conn.fd ∉ s.epoll)
    (done : acceptOne s conn = .ok (more, t)) : t.sent = s.sent ∧ ∀ i, t.client i = s.client i ∨
      (s.client i).state = .empty ∧ (t.client i).state = .connected := by
  have unlisted : ¬ (conn.deleted = true ∧ conn.fd ∈ s.epoll) := fun known => unknown known.2
  simp only [acceptOne] at done
  cases taken : clientInit s.clients conn.now conn.ssl with
  | none =>
    rw [taken] at done
    dsimp only at done
    rw [closeClient_eq, if_neg unlisted] at done
    cases done
    exact ⟨rfl, fun _ => .inl rfl⟩
  | some found =>
    obtain ⟨k, clients⟩ := found
    rw [taken] at done
    obtain ⟨empty, rfl⟩ := clientInit_some taken
    have self : (s.clients.modify k (clientConfigure conn.now conn.ssl)).list k =
        clientConfigure conn.now conn.ssl (s.clients.list k) := s.clients.modify_self k _
    have others {i : Slot} (ne : i ≠ k) : (s.clients.modify k (clientConfigure conn.now conn.ssl)).list i =
        s.clients.list i := s.clients.modify_of_ne _ ne
    by_cases added : conn.added = true ∧ conn.fd ∉ s.epoll
    · simp only [epollAdd, if_pos added] at done
      cases done
      refine ⟨rfl, fun i => ?_⟩
      by_cases here : i = k
      · subst here
        refine .inr ⟨empty, ?_⟩
        rw [Server.client_modify_self]
        exact congrArg Client.state self
      · rw [Server.client_modify_of_ne _ _ here]
        exact .inl (others here)
    · simp only [epollAdd, if_neg added] at done
      rw [closeClient_eq, if_neg unlisted] at done
      cases done
      refine ⟨rfl, fun i => ?_⟩
      by_cases here : i = k
      · subst here
        exact .inr ⟨empty, congrArg Client.state self⟩
      · exact .inl (others here)

theorem accept_views {conn : Connection} (views : Views s log)
    (done : step s (.accept conn) = .ok t) : Views t (s.logged t log) := by
  by_cases used : conn.fd ∈ s.openFds ∨ conn.fd ∈ s.epoll
  · rw [step, if_pos used] at done
    cases done
    exact (Quiet.of_sent (fun _ => rfl) (fun _ live => live) rfl).views views
  · rw [step, if_neg used] at done
    obtain ⟨⟨more, u⟩, taken, done⟩ := bind_ok done
    cases done
    have newcomer := acceptOne_newcomer (not_or.mp used).2 taken
    exact views.newcomers newcomer.2 newcomer.1

theorem handshake_views (views : Views s log) (done : step s (.handshake fd) = .ok t) :
    Views t (s.logged t log) := by
  have ended : completeHandshake s fd = t := Except.ok.inj done
  have idle : Views s (s.logged s log) :=
    (Quiet.of_sent (fun _ => rfl) (fun _ live => live) rfl).views views
  unfold completeHandshake at ended
  split at ended
  · exact ended ▸ idle
  · split at ended
    · rename_i connected
      subst ended
      refine (Quiet.modify s _ _ ?_ ?_).views views
      · simp [Client.seen, connected]
      · simp [connected]
    · exact ended ▸ idle

theorem wantMore_views {bytes : List UInt8} (views : Views s log)
    (done : step s (.wantMore fd bytes) = .ok t) : Views t (s.logged t log) := by
  change sslWantMore s fd bytes = .ok t at done
  unfold sslWantMore at done
  cases found : clientFind s.clients fd with
  | none =>
    rw [found] at done
    cases done
    exact (Quiet.of_sent (fun _ => rfl) (fun _ live => live) rfl).views views
  | some i =>
    rw [found] at done
    dsimp only at done
    have queued := queueAll_tls (s.client i) (bioPieces bytes.length bytes)
    cases ended : (bioPieces bytes.length bytes).foldlM secureQueueWrite (s.client i) with
    | error fault =>
      rw [ended] at done
      cases done
    | ok d =>
      rw [ended] at done queued
      cases done
      have same : (s.client i).SameButSecure d := queued
      refine (Quiet.modify s i (fun _ => d) ?_ ?_).views views
      · rw [same.rest]
        rfl
      · rw [same.rest]
        exact id

theorem close_views {deleted : Bool} (views : Views s log) (valid : s.QueuesValid)
    (distinct : s.DistinctIds) (done : step s (.close fd deleted) = .ok t) :
    Views t (s.logged t log) := by
  change closeClient s fd deleted = .ok t at done
  by_cases listed : deleted = true ∧ fd ∈ s.epoll
  · cases found : clientFind s.clients fd with
    | none =>
      rw [closeClient_eq, if_pos listed] at done
      simp only [found] at done
      cases done
      have quiet : Quiet s { s with epoll := s.epoll.erase fd } :=
        .of_sent (fun _ => rfl) (fun _ live => live) rfl
      exact quiet.views views
    | some c =>
      exact (closeClient_leaves valid listed found (views.named c) done).views distinct views
  · rw [closeClient_eq, if_neg listed] at done
    cases done
    exact (Quiet.of_sent (fun _ => rfl) (fun _ live => live) rfl).views views

theorem write_views {env : WriteEnv} (views : Views s log) (valid : s.QueuesValid)
    (nodup : s.epoll.Nodup) (distinct : s.DistinctIds) (done : step s (.write fd env) = .ok t) :
    Views t (s.logged t log) := by
  rcases writeData_cases nodup done with
    rfl | ⟨i, d, found, written, rfl | ⟨u, e, closed, listed, again, queue, rfl⟩⟩
  · exact (Quiet.of_sent (fun _ => rfl) (fun _ live => live) rfl).views views
  · refine (Quiet.modify s i (fun _ => d) ?_ ?_).views views
    · rw [written.rest]
      rfl
    · rw [written.rest]
      exact id
  · have seats : SameSeats s (s.modify i fun _ => d) := written.seats
    have valid' : (s.modify i fun _ => d).QueuesValid := valid.modify _ (queue (valid i))
    have state : d.state = (s.client i).state := by rw [written.rest]
    have name : d.name = (s.client i).name := by rw [written.rest]
    have leaves := closeClient_leaves valid' listed ((seats.find fd).trans found) (fun complete => by
      rw [s.client_modify_self] at complete ⊢
      rw [name]
      exact views.named i (state.symm.trans complete)) closed
    exact (leaves.written written again).views distinct views

/-- One event, with what it adds to the packets enqueued to each client. -/
def loggedStep (s : Server × Log) (e : Event) : Except (Fault × Server) (Server × Log) := do
  let t ← step s.1 e
  return (t, s.1.logged t s.2)

/-- The views are right, and so is what they rest on. -/
structure Server.Informed (s : Server) (log : Log) : Prop where
  views : Views s log
  queues : s.QueuesValid
  epoll : s.epoll.Nodup

theorem Server.Informed.step {e : Event} (informed : s.Informed log) (distinct : s.DistinctIds)
    (clean : cleanBatches s e) (done : Quickshare.step s e = .ok t) :
    t.Informed (s.logged t log) := by
  have queues := informed.queues.step e
  have epoll := step_epoll_nodup informed.epoll e
  rw [done] at queues epoll
  refine ⟨?_, queues, epoll⟩
  cases e with
  | accept conn => exact accept_views informed.views done
  | handshake fd => exact handshake_views informed.views done
  | wantMore fd bytes => exact wantMore_views informed.views done
  | recv fd chunk => exact recv_views informed.views informed.queues distinct clean done
  | write fd env => exact write_views informed.views informed.queues informed.epoll distinct done
  | close fd deleted => exact close_views informed.views informed.queues distinct done

/-- The view of every client in a session is exactly the others in it, each once. -/
def exactViews (s : Server × Log) : Prop :=
  ∀ r, (s.1.client r).state = .complete → (viewOf (s.2 r)).Nodup ∧
    ∀ user, user ∈ viewOf (s.2 r) ↔ ∃ i, i ≠ r ∧ (s.1.client i).state = .complete ∧
      (s.1.client i).sessionId = (s.1.client r).sessionId ∧ (s.1.client i).user = user

theorem Server.mates_nodup (distinct : s.DistinctIds) (r : Slot) : (s.mates r).Nodup := by
  refine ((List.nodup_finRange _).filter _).map_on fun i left j right same => ?_
  have first := Server.mate_complete (List.mem_filter.mp left).2
  have second := Server.mate_complete (List.mem_filter.mp right).2
  exact distinct i j (by simp [Server.Live, first]) (by simp [Server.Live, second])
    (congrArg User.id same)

theorem Server.mem_mates {r : Slot} {user : User} : user ∈ s.mates r ↔ ∃ i, i ≠ r ∧
    (s.client i).state = .complete ∧ (s.client i).sessionId = (s.client r).sessionId ∧
      (s.client i).user = user := by
  simp [Server.mates, Server.mate, and_assoc]

theorem Server.Informed.exact (informed : s.Informed log) (distinct : s.DistinctIds) :
    exactViews (s, log) := by
  intro r complete
  have told := informed.views.told r complete
  exact ⟨told.nodup_iff.mpr (s.mates_nodup distinct r), fun user => told.mem_iff.trans Server.mem_mates⟩

theorem Server.Informed.run {events : List Event} (informed : s.Informed log)
    (distinct : Throughout Quickshare.step Server.DistinctIds s events)
    (clean : Guarded Quickshare.step cleanBatches s events) :
    Throughout loggedStep exactViews (s, log) events := by
  induction events generalizing s log with
  | nil => exact informed.exact distinct
  | cons e rest ih =>
    refine ⟨informed.exact distinct.here, fun next taken => ?_⟩
    obtain ⟨t, done, same⟩ := bind_ok taken
    cases same
    exact ih (informed.step distinct.here clean.1 done) (distinct.2 t done) (clean.2 t done)

theorem init_informed (db : Database) : (Server.init db).Informed fun _ => [] where
  views := ⟨nofun, fun _ _ _ => rfl, nofun⟩
  queues := init_queuesValid db
  epoll := .nil

instance (s : Server) : (e : Event) → Decidable (apart s e)
  | .accept conn => inferInstanceAs (Decidable (((conn.fd ∉ s.openFds ∧ conn.fd ∉ s.epoll) ∧
      (clientInit s.clients conn.now conn.ssl).isSome = true) → ∀ i, s.Live i → (s.client i).id ≠ conn.now))
  | .handshake _ => .isTrue trivial
  | .wantMore _ _ => .isTrue trivial
  | .recv _ _ => .isTrue trivial
  | .write _ _ => .isTrue trivial
  | .close _ _ => .isTrue trivial

theorem distinct_of_apart {db : Database} {events : List Event}
    (guarded : Guarded step apart (Server.init db) events) :
    Throughout step Server.DistinctIds (Server.init db) events := by
  have start : (Server.init db).DistinctIds := fun i j live => absurd rfl live
  refine guarded.throughout start (fun s e t distinct met taken => ?_) fun _ distinct => distinct
  have kept := distinct.step met
  rw [taken] at kept
  exact kept

/-- Two clients in one session. -/
def twoMembers : List Event :=
  connects 4 100 ++ packetFrom 4 .clientIntro (introBody 1) ++ connects 5 200 ++
    packetFrom 5 .clientIntro (introBody 0)

/-- In every run with distinct ids in which no batch is built in a slot that counts users
already, every client in a session knows exactly the others in it. -/
theorem views_exact (db : Database) {events : List Event}
    (distinct : Throughout step Server.DistinctIds (Server.init db) events)
    (clean : Guarded step cleanBatches (Server.init db) events) :
    Throughout loggedStep exactViews (Server.init db, fun _ => []) events :=
  (init_informed db).run distinct clean

theorem views_exact_two :
    Throughout loggedStep exactViews (Server.init .fresh, fun _ => []) twoMembers :=
  views_exact .fresh (distinct_of_apart (by decide +kernel)) (by decide +kernel)

end Events

/-- A row that an earlier run of the server left. -/
def leftoverRow : Database := { Database.fresh with tables := ⟨[], [], [⟨1, 200, 1⟩]⟩ }

/-- Join a session that does not exist. -/
def strayBody : List UInt8 :=
  List.replicate pcNameMaxLen 98 ++ 98 :: List.replicate (sessionIdMaxLen - 1) 0 ++ toLE 8 0

def dataBody : List UInt8 := toLE 8 1 ++ List.replicate 760 0 ++ [1]

def dirtySlot : List Event :=
  connects 4 100 ++ packetFrom 4 .clientIntro (introBody 1) ++ connects 5 200 ++
    packetFrom 4 .transferData dataBody ++ [.write 5 ⟨[.wouldBlock], [.wrote packetMaxSize none], true⟩] ++
    (List.replicate 14 (packetFrom 5 .clientIntro strayBody)).flatten ++
    packetFrom 5 .clientIntro (introBody 0)

/-- Clients send other packets only after their introduction was accepted. -/
def introFirst (s : Server) (e : Event) : Prop :=
  (s.delivers e).all fun found => (found.2.client found.1).decryptBuf.packet.type? = some .clientIntro ∨
    (found.2.client found.1).state = .complete

instance (s : Server) (e : Event) : Decidable (introFirst s e) := inferInstanceAs (Decidable (_ = true))

/-- `r` is in a session and knows a user that nobody in a session is. -/
def seesStranger (r : Slot) (s : Server × Log) : Bool :=
  (s.1.client r).state = .complete ∧ (viewOf (s.2 r)).any (·.id = 0) ∧
    (List.finRange maxClients).all fun i => (s.1.client i).state ≠ .complete ∨ (s.1.client i).id ≠ 0

theorem not_exactViews {r : Slot} {s : Server × Log} (sees : seesStranger r s = true) :
    ¬ exactViews s := by
  intro exact
  obtain ⟨complete, known, nobody⟩ := of_decide_eq_true sees
  obtain ⟨user, member, zero⟩ := List.any_eq_true.mp known
  obtain ⟨i, -, there, -, same⟩ := ((exact r complete).2 user).mp member
  have apart := of_decide_eq_true (List.all_eq_true.mp nobody i (List.mem_finRange i))
  refine apart.elim (fun gone => gone there) fun other => other ?_
  have id : (s.1.client i).id = user.id := congrArg User.id same
  exact id.trans (of_decide_eq_true zero)

theorem views_exact_fails : ¬ ∀ (db : Database) (events : List Event),
    Throughout step Server.DistinctIds (Server.init db) events →
    Guarded step introFirst (Server.init db) events →
    Throughout loggedStep exactViews (Server.init db, fun _ => []) events := by
  intro exact
  have keeps : Guarded step (fun s e => apart s e ∧ introFirst s e) (Server.init leftoverRow)
      dirtySlot := by decide +kernel
  have sees : ((run loggedStep (Server.init leftoverRow, fun _ => []) dirtySlot).map
      (seesStranger 1)).toOption = some true := by decide +kernel
  have distinct := distinct_of_apart (keeps.mono fun _ _ both => both.1)
  have passed := exact leftoverRow dirtySlot distinct (keeps.mono fun _ _ both => both.2)
  cases ended : run loggedStep (Server.init leftoverRow, fun _ => []) dirtySlot with
  | error failed =>
    rw [ended] at sees
    cases sees
  | ok last =>
    rw [ended] at sees
    exact not_exactViews (Option.some.inj sees) (passed.final ended)

end Quickshare
