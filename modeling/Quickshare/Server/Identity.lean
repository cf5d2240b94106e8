import Quickshare.Server.StepRules

/-! Client ids. An id is the second its client was accepted in, so ids stay
distinct exactly as long as no two connected clients were accepted at one time. -/

namespace Quickshare

open Runs

variable {s t : Server} {c i j : Slot} {fd : Int}

def Server.Live (s : Server) (i : Slot) : Prop := (s.client i).state ≠ .empty

instance (s : Server) (i : Slot) : Decidable (s.Live i) := inferInstanceAs (Decidable (_ ≠ _))

/-- No two connected clients have one id. -/
def Server.DistinctIds (s : Server) : Prop :=
  ∀ i j, s.Live i → s.Live j → (s.client i).id = (s.client j).id → i = j

instance (s : Server) : Decidable s.DistinctIds :=
  inferInstanceAs (Decidable (∀ i j, s.Live i → s.Live j → (s.client i).id = (s.client j).id → i = j))

/-- Every connected client is the one its id leads to. -/
def Server.FoundById (s : Server) : Prop :=
  ∀ i, s.Live i → clientFindById s.clients (s.client i).id = some i

theorem Server.DistinctIds.foundById (distinct : s.DistinctIds) : s.FoundById := by
  intro i live
  obtain ⟨j, found⟩ := clientFindById_live live
  have right := clientFindById_some found
  rw [Server.client, found, distinct j i right.1 live right.2]

theorem Server.DistinctIds.of_live (distinct : s.DistinctIds)
    (live : ∀ i, t.Live i → s.Live i) (id : ∀ i, (t.client i).id = (s.client i).id) :
    t.DistinctIds := fun i j first second same =>
  distinct i j (live i first) (live j second) ((id i).symm.trans (same.trans (id j)))

/-- A change that connects nobody and renames nobody. -/
theorem Server.modify_ids (s : Server) (f : Client → Client)
    (live : (f (s.client i)).state ≠ .empty → (s.client i).state ≠ .empty)
    (id : (f (s.client i)).id = (s.client i).id) :
    (∀ j, (s.modify i f).Live j → s.Live j) ∧ ∀ j, ((s.modify i f).client j).id = (s.client j).id := by
  refine ⟨fun j => ?_, fun j => ?_⟩
  · by_cases here : j = i
    · subst here
      rw [Server.Live, client_modify_self]
      exact live
    · rw [Server.Live, client_modify_of_ne _ _ here]
      exact fun held => held
  · by_cases here : j = i
    · subst here
      rw [client_modify_self, id]
    · rw [client_modify_of_ne _ _ here]

theorem Server.DistinctIds.modify (distinct : s.DistinctIds) (f : Client → Client)
    (live : (f (s.client i)).state ≠ .empty → (s.client i).state ≠ .empty)
    (id : (f (s.client i)).id = (s.client i).id) : (s.modify i f).DistinctIds :=
  distinct.of_live (s.modify_ids f live id).1 (s.modify_ids f live id).2

theorem Handled.live (handled : Handled c s t) (registered : s.Live c) (i : Slot) (live : t.Live i) :
    s.Live i := by
  rcases handled.state i with ⟨same, -⟩ | ⟨rfl, -⟩
  · rwa [Server.Live, ← same]
  · exact registered

theorem SameClients.live (same : SameClients s t) (i : Slot) : t.Live i ↔ s.Live i := by
  rw [Server.Live, Server.Live, same.state]

theorem Server.closed_live (s : Server) (fd : Int) (i : Slot) (live : (s.closed fd).Live i) :
    s.Live i := by
  by_cases found : clientFind s.clients fd = some i
  · have gone := clientClose_self found
    simp [Server.Live, Server.client, Server.closed, gone, Client.freed] at live
  · have kept := clientClose_of_ne found
    simpa [Server.Live, Server.client, Server.closed, kept] using live

theorem Server.closed_id (s : Server) (fd : Int) (i : Slot) :
    ((s.closed fd).client i).id = (s.client i).id := by
  by_cases found : clientFind s.clients fd = some i
  · simp [Server.client, Server.closed, clientClose_self found, Client.freed]
  · simp [Server.client, Server.closed, clientClose_of_ne found]

/-- `accept_client` gets a new descriptor and there is a free slot. -/
def Server.accepts (s : Server) (conn : Connection) : Prop :=
  (conn.fd ∉ s.openFds ∧ conn.fd ∉ s.epoll) ∧ (clientInit s.clients conn.now conn.ssl).isSome

instance (s : Server) (conn : Connection) : Decidable (s.accepts conn) := by
  unfold Server.accepts
  infer_instance

/-- No connected client was accepted in the second in which this event accepts one. -/
def apart (s : Server) : Event → Prop
  | .accept conn => s.accepts conn → ∀ i, s.Live i → (s.client i).id ≠ conn.now
  | _ => True

/-- A slot taken at a time no connected client was accepted keeps ids distinct. -/
theorem Server.DistinctIds.take {clients : ClientList} {now : ClientId} {ssl : Ssl}
    (distinct : s.DistinctIds) (fresh : ∀ i, s.Live i → (s.client i).id ≠ now)
    (done : clientInit s.clients now ssl = some (i, clients)) :
    Server.DistinctIds { s with clients } := by
  obtain ⟨-, rfl⟩ := clientInit_some done
  have taken : (s.clients.modify i (clientConfigure now ssl)).list i =
      clientConfigure now ssl (s.clients.list i) := s.clients.modify_self i _
  have kept {j : Slot} (ne : j ≠ i) : (s.clients.modify i (clientConfigure now ssl)).list j =
      s.clients.list j := s.clients.modify_of_ne _ ne
  intro j k first second same
  simp only [Server.Live, Server.client] at first second same
  by_cases j_new : j = i <;> by_cases k_new : k = i
  · rw [j_new, k_new]
  · rw [j_new, taken, kept k_new] at same
    rw [kept k_new] at second
    exact absurd same.symm (fresh k second)
  · rw [k_new, taken, kept j_new] at same
    rw [kept j_new] at first
    exact absurd same (fresh j first)
  · rw [kept j_new] at first same
    rw [kept k_new] at second same
    exact distinct j k first second same

theorem distinctIds_rule : StepRule Server.DistinctIds fun _ => True :=
  .of_clients (fun s t same distinct => distinct.of_live (fun i => (same.live i).mp) same.id)
    (fun s i d distinct drains => by
      have rest := drains.rest
      refine distinct.modify (fun _ => d) ?_ ?_ <;> rw [rest]
      exact id)
    (fun s fd distinct => distinct.of_live (s.closed_live fd) (s.closed_id fd))
    (fun s i fd distinct => distinct.modify _ id rfl)
    (fun s i distinct connected => distinct.modify _ (by simp [connected]) rfl)

theorem Server.DistinctIds.decryptData (distinct : s.DistinctIds) (live : s.Live c)
    (chunk : List UInt8) :
    Ends Server.DistinctIds (fun _ => True) (Quickshare.decryptData s c chunk) := by
  have received (buf : Buffer packetMaxSize) : (s.received c buf).DistinctIds :=
    distinct.modify _ id rfl
  refine decryptData_ends trivial (fun buf _ => received buf) fun buf _ => ?_
  have registered : (s.handed c buf).Live c := by
    rwa [Server.Live, Server.handed_client, Server.received, Server.client_modify_self]
  exact (analizePacket_touches (s.handed c buf) c).mono
    (fun t _ handled => ((received buf).of_live (handled.live registered) handled.id).modify _
      id rfl) fun _ _ => trivial

theorem Server.DistinctIds.step (distinct : s.DistinctIds) {e : Event} (met : apart s e) :
    Ends Server.DistinctIds (fun _ => True) (Quickshare.step s e) :=
  distinctIds_rule.step distinct e
    (fun conn i clients same closed unknown taken => by
      subst same
      exact distinct.take (met ⟨⟨closed, unknown⟩, by rw [taken]; rfl⟩) taken)
    fun fd chunk c _ found _ _ _ => distinct.decryptData (clientFind_some found).1 chunk

/-- A slot once taken stays taken, even when the descriptor cannot be watched. -/
theorem step_accept {conn : Connection} {clients : ClientList} (closed : conn.fd ∉ s.openFds)
    (unknown : conn.fd ∉ s.epoll)
    (taken : clientInit s.clients conn.now conn.ssl = some (i, clients)) :
    ∃ t, step s (.accept conn) = .ok t ∧ ∀ j, (t.client j).id = (clients.list j).id ∧
      (t.client j).state = (clients.list j).state := by
  have free : ¬ (conn.fd ∈ s.openFds ∨ conn.fd ∈ s.epoll) := not_or.mpr ⟨closed, unknown⟩
  simp only [step, if_neg free, acceptOne, taken]
  by_cases added : conn.added = true
  · simp only [epollAdd, added, unknown, not_false_eq_true, and_self, if_true]
    refine ⟨_, rfl, fun j => ⟨?_, ?_⟩⟩
    · exact clients.modify_field i (fun c => { c with fd := conn.fd }) Client.id (fun _ => rfl) j
    · exact clients.modify_field i (fun c => { c with fd := conn.fd }) Client.state (fun _ => rfl) j
  · simp only [epollAdd, added, Bool.false_eq_true, false_and, if_false, closeClient, epollDel,
      unknown, and_false]
    exact ⟨_, rfl, fun j => ⟨rfl, rfl⟩⟩

/-- A slot taken at the time of a connected client leaves two clients with one id. -/
theorem step_of_not_apart {e : Event} (missed : ¬ apart s e) :
    ∃ t, step s e = .ok t ∧ ¬ t.DistinctIds := by
  cases e with
  | accept conn =>
    simp only [apart, not_forall] at missed
    obtain ⟨⟨⟨closed, unknown⟩, room⟩, i, live, same⟩ := missed
    obtain ⟨⟨k, clients⟩, taken⟩ := Option.isSome_iff_exists.mp room
    obtain ⟨t, reached, left⟩ := step_accept closed unknown taken
    obtain ⟨empty, rfl⟩ := clientInit_some taken
    have ne : i ≠ k := fun here => live (by rw [here]; exact empty)
    have new : (s.clients.modify k (clientConfigure conn.now conn.ssl)).list k =
        clientConfigure conn.now conn.ssl (s.clients.list k) := s.clients.modify_self k _
    have old : (s.clients.modify k (clientConfigure conn.now conn.ssl)).list i =
        s.clients.list i := s.clients.modify_of_ne _ ne
    refine ⟨t, reached, fun distinct => ne (distinct i k ?_ ?_ ?_)⟩
    · rw [Server.Live, (left i).2, old]
      exact live
    · rw [Server.Live, (left k).2, new]
      simp [clientConfigure]
    · rw [(left i).1, (left k).1, old, new]
      exact not_not.mp same
  | _ => exact absurd trivial missed

/-- Along every run the ids of connected clients are distinct, and lead back to
their clients, exactly if every client is accepted at a time of its own among
the clients connected then. -/
theorem ids_distinct_iff (db : Database) (events : List Event) :
    Throughout step (fun s => s.DistinctIds ∧ s.FoundById) (Server.init db) events ↔
      Guarded step apart (Server.init db) events := by
  have start : (Server.init db).DistinctIds := fun i j live => absurd rfl live
  refine throughout_iff_guarded start (fun s e t distinct met taken => ?_)
    (fun s distinct => ⟨distinct, distinct.foundById⟩) fun s e distinct missed => ?_
  · have kept := distinct.step met
    rw [taken] at kept
    exact kept
  · obtain ⟨t, taken, bad⟩ := step_of_not_apart missed
    exact ⟨t, taken, fun good => bad good.1⟩

/-- Two connections waiting in one second get one id. -/
theorem ids_distinct_fails : ¬ Throughout step (fun s => s.DistinctIds ∧ s.FoundById)
    (Server.init .fresh) [.accept ⟨4, 100, .plain, true, true⟩, .accept ⟨5, 100, .plain, true, true⟩] := by
  intro passed
  obtain ⟨t, reached, first, second, same⟩ : ∃ t, run step (Server.init .fresh)
      [.accept ⟨4, 100, .plain, true, true⟩, .accept ⟨5, 100, .plain, true, true⟩] = .ok t ∧
      t.Live 0 ∧ t.Live 1 ∧ (t.client 0).id = (t.client 1).id := by
    refine ⟨_, rfl, ?_, ?_, rfl⟩ <;> simp [Server.Live] <;> decide
  have distinct := (passed.final reached).1 0 1 first second same
  cases distinct

end Quickshare
