import Quickshare.Server.HandlerPlans
import Mathlib.Data.Fintype.Card

/-! What `accept_client` does with every connection it takes. A rejected one is
left to `close_client`, which gives up on a descriptor epoll does not know, so
the connection stays open and the slot it may have taken is lost. -/

namespace Quickshare

variable {s t : Server} {i j : Slot} {conn : Connection} {conns : List Connection}

/-- `fd` is registered and belongs to exactly one client. -/
def Server.holds (s : Server) (fd : Int) : Prop :=
  (∃! i, (s.client i).state ≠ .empty ∧ (s.client i).fd = fd) ∧ fd ∈ s.epoll

/-- Where `accept_client` returns in `t`, each connection it took from `s` on is
held, or closed with the client table as it was before. -/
def Accounted (t : Server) : Server → List Connection → Prop
  | _, [] => True
  | s, conn :: rest =>
    (t.holds conn.fd ∨ conn.fd ∉ t.openFds ∧ t.clients = s.clients) ∧
      ∀ u, acceptOne s conn = .ok (true, u) → Accounted t u rest

/-- `accept` returns descriptors that are not in use. -/
structure Server.Unused (s : Server) (conns : List Connection) : Prop where
  closed : ∀ conn ∈ conns, conn.fd ∉ s.openFds
  unknown : ∀ conn ∈ conns, conn.fd ∉ s.epoll
  apart : (conns.map Connection.fd).Nodup

def Server.freeSlots (s : Server) : Finset Slot :=
  Finset.univ.filter fun i => (s.client i).state = .empty

/-- There is a free slot for every connection, `n_cli` does not say otherwise,
`EPOLL_CTL_ADD` works and no client goes by a descriptor that was free. -/
structure Server.canAccept (s : Server) (conns : List Connection) : Prop where
  room : conns.length ≤ s.freeSlots.card
  counted : ∀ k < conns.length, s.clients.nCli + k ≠ maxClients
  added : ∀ conn ∈ conns, conn.added = true
  fresh : ∀ conn ∈ conns, ∀ i, (s.client i).state ≠ .empty → (s.client i).fd ≠ conn.fd

/-- The connection has become client `i`. -/
def Server.accepted (s : Server) (i : Slot) (conn : Connection) : Server :=
  { s with
    clients := { s.clients.modify i fun c =>
      { clientConfigure conn.now conn.ssl c with fd := conn.fd } with nCli := s.clients.nCli + 1 }
    epoll := conn.fd :: s.epoll
    openFds := conn.fd :: s.openFds }

theorem Server.accepted_self (s : Server) (i : Slot) (conn : Connection) :
    (s.accepted i conn).client i =
      { clientConfigure conn.now conn.ssl (s.client i) with fd := conn.fd } :=
  s.clients.modify_self i fun c => { clientConfigure conn.now conn.ssl c with fd := conn.fd }

theorem Server.accepted_of_ne (s : Server) (conn : Connection) (other : j ≠ i) :
    (s.accepted i conn).client j = s.client j :=
  s.clients.modify_of_ne (fun c => { clientConfigure conn.now conn.ssl c with fd := conn.fd }) other

/-- What `accept_client` leaves alone: the clients there were, and the descriptors. -/
structure Server.Extends (s t : Server) : Prop where
  client : ∀ i, (s.client i).state ≠ .empty → t.client i = s.client i
  openFds : ∀ fd ∈ s.openFds, fd ∈ t.openFds
  epoll : ∀ fd ∈ s.epoll, fd ∈ t.epoll

theorem Server.Extends.refl (s : Server) : s.Extends s :=
  ⟨fun _ _ => rfl, fun _ member => member, fun _ member => member⟩

theorem Server.Extends.trans {u : Server} (first : s.Extends t) (second : t.Extends u) :
    s.Extends u where
  client := by
    intro i live
    have here := first.client i live
    rw [second.client i (by rwa [here]), here]
  openFds := fun fd member => second.openFds fd (first.openFds fd member)
  epoll := fun fd member => second.epoll fd (first.epoll fd member)

/-- Without a slot or a registration the connection is left as it is. -/
theorem acceptOne_cases (s : Server) (conn : Connection) (unknown : conn.fd ∉ s.epoll) :
    (∃ i clients, clientInit s.clients conn.now conn.ssl = some (i, clients) ∧
      conn.added = true ∧ acceptOne s conn = .ok (true, s.accepted i conn)) ∨
    (clientInit s.clients conn.now conn.ssl = none ∨ conn.added = false) ∧
      ∃ u, acceptOne s conn = .ok (false, u) ∧ conn.fd ∈ u.openFds ∧ u.epoll = s.epoll ∧
        s.Extends u := by
  have unlisted (clients : ClientList) (openFds : List Int) :
      closeClient { s with clients, openFds } conn.fd conn.deleted =
        .ok { s with clients, openFds } := by
    rw [closeClient_eq]
    exact if_neg fun known => unknown known.2
  simp only [acceptOne]
  cases taken : clientInit s.clients conn.now conn.ssl with
  | none =>
    refine .inr ⟨.inl rfl, { s with openFds := conn.fd :: s.openFds }, ?_, ?_, rfl, ?_⟩
    · dsimp only
      rw [unlisted s.clients]
      rfl
    · exact List.mem_cons_self ..
    · exact ⟨fun _ _ => rfl, fun _ member => List.mem_cons_of_mem _ member, fun _ member => member⟩
  | some found =>
    obtain ⟨i, clients⟩ := found
    obtain ⟨empty, rfl⟩ := clientInit_some taken
    by_cases added : conn.added = true
    · refine .inl ⟨i, _, rfl, added, ?_⟩
      simp [epollAdd, added, unknown, Server.accepted, Server.modify, ClientList.modify]
    · have failed : conn.added = false := by simpa using added
      refine .inr ⟨.inr failed, { s with
        clients := { s.clients.modify i (clientConfigure conn.now conn.ssl) with
          nCli := s.clients.nCli + 1 }
        openFds := conn.fd :: s.openFds }, ?_, List.mem_cons_self .., rfl, ?_⟩
      · simp only [epollAdd, failed, Bool.false_eq_true, false_and, if_false]
        rw [unlisted]
        rfl
      · refine ⟨?_, fun _ member => List.mem_cons_of_mem _ member, fun _ member => member⟩
        intro j live
        apply s.clients.modify_of_ne
        rintro rfl
        exact live empty

theorem clientInit_room (now : ClientId) (ssl : Ssl) (counted : s.clients.nCli ≠ maxClients)
    (empty : (s.client i).state = .empty) :
    ∃ j clients, clientInit s.clients now ssl = some (j, clients) := by
  have free : (s.clients.list i).state = .empty := empty
  obtain ⟨j, found⟩ := ClientList.search_isSome (p := (·.state = .empty)) i (by simpa using free)
  unfold clientInit
  rw [if_neg counted, found]
  exact ⟨j, _, rfl⟩

theorem clientInit_counted {now : ClientId} {ssl : Ssl} {clients : ClientList}
    (taken : clientInit s.clients now ssl = some (i, clients)) : s.clients.nCli ≠ maxClients := by
  intro full
  rw [clientInit, if_pos full] at taken
  cases taken

theorem Server.accepted_freeSlots (empty : (s.client i).state = .empty) (conn : Connection) :
    (s.accepted i conn).freeSlots = s.freeSlots.erase i := by
  ext j
  simp only [freeSlots, Finset.mem_erase, Finset.mem_filter, Finset.mem_univ, true_and]
  by_cases here : j = i
  · subst here
    rw [accepted_self]
    simp [clientConfigure]
  · rw [accepted_of_ne _ _ here]
    simp [here]

theorem Server.accepted_room (empty : (s.client i).state = .empty) (conn : Connection) :
    (s.accepted i conn).freeSlots.card + 1 = s.freeSlots.card := by
  rw [accepted_freeSlots empty]
  exact Finset.card_erase_add_one (by simpa [freeSlots] using empty)

/-- Descriptors that later connections do not have stay out of use. -/
theorem Server.Unused.accepted (unused : s.Unused (conn :: conns)) (i : Slot) :
    (s.accepted i conn).Unused conns := by
  obtain ⟨first, apart⟩ := List.nodup_cons.mp unused.apart
  have other : ∀ next ∈ conns, next.fd ≠ conn.fd := by
    intro next member same
    exact first (same ▸ List.mem_map_of_mem member)
  refine ⟨?_, ?_, apart⟩
  · intro next member used
    rcases List.mem_cons.mp used with same | old
    · exact other next member same
    · exact unused.closed next (List.mem_cons_of_mem _ member) old
  · intro next member used
    rcases List.mem_cons.mp used with same | old
    · exact other next member same
    · exact unused.unknown next (List.mem_cons_of_mem _ member) old

theorem Server.accepted_extends (empty : (s.client i).state = .empty) (conn : Connection) :
    s.Extends (s.accepted i conn) where
  client := by
    intro j live
    apply accepted_of_ne
    rintro rfl
    exact live empty
  openFds := fun fd member => List.mem_cons_of_mem _ member
  epoll := fun fd member => List.mem_cons_of_mem _ member

theorem Server.canAccept.accepted (able : s.canAccept (conn :: conns))
    (unused : s.Unused (conn :: conns)) (empty : (s.client i).state = .empty) :
    (s.accepted i conn).canAccept conns where
  room := by
    have size := able.room
    rw [← accepted_room empty conn, List.length_cons] at size
    omega
  counted := by
    intro k less full
    apply able.counted (k + 1) (Nat.succ_lt_succ less)
    have count : (s.accepted i conn).clients.nCli = s.clients.nCli + 1 := rfl
    omega
  added := fun next member => able.added next (List.mem_cons_of_mem _ member)
  fresh := by
    intro next member j live same
    by_cases here : j = i
    · subst here
      rw [accepted_self] at same
      replace same : conn.fd = next.fd := same
      exact (List.nodup_cons.mp unused.apart).1 (same ▸ List.mem_map_of_mem member)
    · rw [accepted_of_ne _ _ here] at live same
      exact able.fresh next (List.mem_cons_of_mem _ member) j live same

/-- If every connection can be accepted, every connection is. -/
theorem Server.canAccept.accounted (able : s.canAccept conns) (unused : s.Unused conns) :
    ∃ t, acceptClient s conns = .ok t ∧ Accounted t s conns ∧ s.Extends t ∧
      ∀ j, (t.client j).state ≠ .empty →
        (s.client j).state ≠ .empty ∨ (t.client j).fd ∈ conns.map Connection.fd := by
  induction conns generalizing s with
  | nil => exact ⟨s, rfl, trivial, .refl s, fun _ => .inl⟩
  | cons conn rest ih =>
    have room : 0 < s.freeSlots.card := Nat.lt_of_lt_of_le (Nat.succ_pos _) able.room
    obtain ⟨k, free⟩ := Finset.card_pos.mp room
    have unknown := unused.unknown conn (List.mem_cons_self ..)
    obtain ⟨j, clients, found⟩ := clientInit_room conn.now conn.ssl
      (able.counted 0 (Nat.succ_pos _)) (by simpa [Server.freeSlots] using free)
    rcases acceptOne_cases s conn unknown with
      ⟨i, clients', taken, -, accepted⟩ | ⟨failed, -⟩
    · have empty := (clientInit_some taken).1
      have self := s.accepted_self i conn
      obtain ⟨t, ended, accounted, later, origin⟩ := ih (able.accepted unused empty)
        (unused.accepted i)
      have mine : t.client i = (s.accepted i conn).client i :=
        later.client i (by rw [self]; simp [clientConfigure])
      refine ⟨t, ?_, ⟨.inl ⟨⟨i, ?_, ?_⟩, ?_⟩, ?_⟩, (Server.accepted_extends empty conn).trans later, ?_⟩
      · simpa [acceptClient, accepted, bind, Except.bind] using ended
      · dsimp only
        rw [mine, self]
        simp [clientConfigure]
      · rintro j ⟨live, same⟩
        by_contra other
        have kept := s.accepted_of_ne conn other
        rcases origin j live with old | new
        · have there := later.client j old
          rw [kept] at old there
          rw [there] at same
          exact able.fresh conn (List.mem_cons_self ..) j old same
        · rw [same] at new
          exact (List.nodup_cons.mp unused.apart).1 new
      · exact later.epoll conn.fd (List.mem_cons_self ..)
      · intro u took
        rw [accepted] at took
        cases took
        exact accounted
      · intro j live
        rcases origin j live with old | new
        · by_cases here : j = i
          · subst here
            rw [mine, self]
            exact .inr (List.mem_cons_self ..)
          · rw [s.accepted_of_ne conn here] at old
            exact .inl old
        · exact .inr (List.mem_cons_of_mem _ new)
    · rcases failed with full | refused
      · rw [full] at found
        cases found
      · rw [able.added conn (List.mem_cons_self ..)] at refused
        cases refused

/-- Whatever `accept_client` does, it keeps the clients it finds. -/
theorem acceptClient_extends (unused : s.Unused conns) (ended : acceptClient s conns = .ok t) :
    s.Extends t := by
  induction conns generalizing s with
  | nil =>
    cases ended
    exact .refl _
  | cons conn rest ih =>
    have unknown := unused.unknown conn (List.mem_cons_self ..)
    rcases acceptOne_cases s conn unknown with
      ⟨i, clients, taken, -, accepted⟩ | ⟨-, u, rejected, -, -, kept⟩
    · have empty := (clientInit_some taken).1
      simp only [acceptClient, accepted, bind, Except.bind, if_true] at ended
      exact (Server.accepted_extends empty conn).trans (ih (unused.accepted i) ended)
    · simp only [acceptClient, rejected, bind, Except.bind, Bool.false_eq_true, if_false] at ended
      cases ended
      exact kept

/-- Where every connection is accounted for, every one could be accepted. -/
theorem Accounted.canAccept (accounted : Accounted t s conns) (unused : s.Unused conns)
    (ended : acceptClient s conns = .ok t) : s.canAccept conns := by
  induction conns generalizing s with
  | nil => exact ⟨Nat.zero_le _, nofun, nofun, nofun⟩
  | cons conn rest ih =>
    obtain ⟨here, later⟩ := accounted
    have unknown := unused.unknown conn (List.mem_cons_self ..)
    rcases acceptOne_cases s conn unknown with
      ⟨i, clients, taken, added, accepted⟩ | ⟨-, u, rejected, opened, epoll, -⟩
    · have empty := (clientInit_some taken).1
      have self := s.accepted_self i conn
      simp only [acceptClient, accepted, bind, Except.bind, if_true] at ended
      have kept := acceptClient_extends (unused.accepted i) ended
      obtain ⟨room, counted, added', fresh⟩ := ih (later _ accepted) (unused.accepted i) ended
      have held : t.holds conn.fd := by
        rcases here with held | ⟨closed, -⟩
        · exact held
        · exact absurd (kept.openFds conn.fd (List.mem_cons_self ..)) closed
      obtain ⟨⟨k, -, only⟩, -⟩ := held
      have mine : k = i := by
        refine (only i ?_).symm
        dsimp only
        rw [kept.client i (by rw [self]; simp [clientConfigure]), self]
        simp [clientConfigure]
      refine ⟨?_, ?_, ?_, ?_⟩
      · rw [← Server.accepted_room empty conn, List.length_cons]
        omega
      · intro n less full
        cases n with
        | zero => exact clientInit_counted taken full
        | succ n =>
          apply counted n (Nat.lt_of_succ_lt_succ less)
          have count : (s.accepted i conn).clients.nCli = s.clients.nCli + 1 := rfl
          omega
      · intro next member
        rcases List.mem_cons.mp member with rfl | old
        · exact added
        · exact added' next old
      · intro next member j live same
        have other : j ≠ i := by
          rintro rfl
          exact live empty
        have stays := s.accepted_of_ne conn other
        rcases List.mem_cons.mp member with rfl | old
        · have there := kept.client j (by rwa [stays])
          rw [stays] at there
          exact other ((only j ⟨by rwa [there], by rwa [there]⟩).trans mine)
        · exact fresh next old j (by rwa [stays]) (by rwa [stays])
    · simp only [acceptClient, rejected, bind, Except.bind, Bool.false_eq_true, if_false] at ended
      cases ended
      rcases here with ⟨-, registered⟩ | ⟨closed, -⟩
      · rw [epoll] at registered
        exact absurd registered unknown
      · exact absurd opened closed

/-- `accept_client` accounts for every connection it takes exactly if it can
accept them all. -/
theorem accounted_iff (unused : s.Unused conns) :
    (∃ t, acceptClient s conns = .ok t ∧ Accounted t s conns) ↔ s.canAccept conns := by
  constructor
  · rintro ⟨t, ended, accounted⟩
    exact accounted.canAccept unused ended
  · intro able
    obtain ⟨t, ended, accounted, -⟩ := able.accounted unused
    exact ⟨t, ended, accounted⟩

/-- One connection that could be registered, and one that could not. -/
def oneConnection (added : Bool) : List Connection := [⟨4, 100, .plain, added, true⟩]

theorem oneConnection_unused (added : Bool) :
    (Server.init .fresh).Unused (oneConnection added) where
  closed := fun _ _ => List.not_mem_nil
  unknown := fun _ _ => List.not_mem_nil
  apart := List.nodup_singleton _

theorem accounted_iff_one : ∃ t, acceptClient (Server.init .fresh) (oneConnection true) = .ok t ∧
    Accounted t (Server.init .fresh) (oneConnection true) := by
  apply (accounted_iff (oneConnection_unused true)).mpr
  refine ⟨by decide, ?_, by decide, fun _ _ i live => absurd rfl live⟩
  intro k less full
  have first : k = 0 := Nat.lt_one_iff.mp less
  subst first
  cases full

/-- The slot of a connection that cannot be registered stays taken. -/
theorem accounted_fails : ¬ ∃ t, acceptClient (Server.init .fresh) (oneConnection false) = .ok t ∧
    Accounted t (Server.init .fresh) (oneConnection false) := by
  rintro ⟨t, ended, accounted⟩
  have able := accounted.canAccept (oneConnection_unused false) ended
  exact absurd (able.added _ (List.mem_singleton_self _)) (by decide)

end Quickshare
