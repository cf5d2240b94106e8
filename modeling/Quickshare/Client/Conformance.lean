import Quickshare.Client.Emissions
import Quickshare.Client.Requests
import Quickshare.Client.Sending

/-! The host's side of a transfer. What a slot has emitted since it left EMPTY,
and who has answered it, is kept beside the slots; the state of a slot says
where in its dialogue it is. -/

namespace Quickshare

open Runs Bytes

/-- What happened to a host slot since it left EMPTY. -/
structure HostTrace where
  sent : List Packet
  /-- A VALID with the slot's own `local_id` arrived. -/
  valid : Bool
  /-- Who sent a reply or a cancel with the slot's `t_id`. -/
  answered : List ClientId

def HostTrace.none : HostTrace := ⟨[], false, []⟩

abbrev Traces := Fin simTransfersMax → HostTrace

/-- The packet answers the transfer the slot holds. -/
def answers (p : Packet) (t : ActiveTransfer) : Bool :=
  (p.type? = some .transferReply ∨ p.type? = some .transferCancel) ∧ p.tId = t.hdr.tId

def HostTrace.received (g : HostTrace) (p : Packet) (t : ActiveTransfer) : HostTrace :=
  { g with
    valid := g.valid || (p.type? = some .transferValid ∧ p.clientTransferId = t.localId : Bool)
    answered := if answers p t then p.hdrFrom :: g.answered else g.answered }

/-- The packet this event emits, if it is of slot `i`. -/
def HostTrace.emitted (g : HostTrace) (i : Fin simTransfersMax) :
    Option (TransferManager.Slot × Packet) → HostTrace
  | some (s, q) => if s = .host i then { g with sent := g.sent ++ [q] } else g
  | Option.none => g

/-- A REQUEST, then DATA, then a COMPLETE or CANCEL, as far as it has come. -/
def dialogue (types : List (Option PacketType)) : Prop :=
  ∃ n last, (last = PacketType.transferComplete ∨ last = .transferCancel) ∧
    types <+: some .transferRequest :: (List.replicate n (some .transferData) ++ [some last])

/-- Every listed recipient has answered, and one stands as ACCEPT. -/
def granted (t : ActiveTransfer) (g : HostTrace) : Prop :=
  (∀ k ∈ t.listed, t.hdr.recipients k ∈ g.answered) ∧ ∃ k ∈ t.listed, t.acceptList k = .accept

namespace TransferManager

variable {m k next : TransferManager} {env : WorkEnv} {e : ManagerEvent} {p q : Packet}
variable {i : Fin simTransfersMax}

def traced (m : TransferManager) (e : ManagerEvent) (next : TransferManager) (traces : Traces) :
    Traces := fun i =>
  if (next.hostTransfers i).state = .empty then .none
  else match e with
    | .packet _ p => (traces i).received p (m.hostTransfers i)
    | e => (traces i).emitted i (m.emission e)

/-- One event, with the traces of the host slots. -/
def traceStep (s : TransferManager × Traces) (e : ManagerEvent) :
    Except Abort (TransferManager × Traces) := do
  let next ← s.1.step e
  return (next, traced s.1 e next s.2)

/-- A host slot's packet continues its dialogue, and DATA and COMPLETE come only
after a VALID of its own and while the transfer is granted. -/
def emitsInOrder (s : TransferManager × Traces) (e : ManagerEvent) : Prop :=
  ∀ i q, s.1.emission e = some (.host i, q) →
    dialogue (((s.2 i).sent ++ [q]).map Packet.type?) ∧
      (q.type? = some .transferData ∨ q.type? = some .transferComplete →
        (s.2 i).valid = true ∧ granted (s.1.hostTransfers i) (s.2 i))

/-- A VALID or INVALID changes at most the slot that emitted the REQUEST with its
`client_transfer_id`. -/
def confirmsOwn (s : TransferManager × Traces) : ManagerEvent → Prop
  | .packet env p => p.type? = some .transferValid ∨ p.type? = some .transferInvalid →
      ∀ next, s.1.step (.packet env p) = .ok next → next.recvTransfers = s.1.recvTransfers ∧
        ∀ i, next.hostTransfers i ≠ s.1.hostTransfers i →
          (∃ q ∈ (s.2 i).sent, q.type? = some .transferRequest ∧
            q.clientTransferId = p.clientTransferId) ∧
          ∀ j, j ≠ i → next.hostTransfers j = s.1.hostTransfers j
  | _ => True

def conforms (s : TransferManager × Traces) (e : ManagerEvent) : Prop :=
  emitsInOrder s e ∧ confirmsOwn s e

/-- A cancel of the server names a transfer. -/
def cancelNamed : ManagerEvent → Prop
  | .packet _ p => p.type? = some .transferCancel → p.tId ≠ 0
  | _ => True

instance : (e : ManagerEvent) → Decidable (cancelNamed e)
  | .packet _ p => inferInstanceAs (Decidable (p.type? = some .transferCancel → p.tId ≠ 0))
  | .cmd _ => isTrue trivial
  | .work _ _ => isTrue trivial

end TransferManager

/-! Where in its dialogue a slot is. -/

/-- Nothing is known yet of the transfer. -/
structure ActiveTransfer.Fresh (t : ActiveTransfer) : Prop where
  tId : t.hdr.tId = 0
  acceptList : ∀ k, t.acceptList k = .empty

/-- The entries of the accept list are answers of the recipients they stand for. -/
structure Heard (t : ActiveTransfer) (g : HostTrace) : Prop where
  answered : ∀ k, t.acceptList k ≠ .empty → t.hdr.recipients k ∈ g.answered
  plain : ∀ k, t.acceptList k = .empty ∨ t.acceptList k = .accept ∨ t.acceptList k = .deny

/-- A REQUEST and some DATA. -/
def started (sent : List Packet) : Prop :=
  ∃ n, sent.map Packet.type? = some .transferRequest :: List.replicate n (some .transferData)

inductive Follows (t : ActiveTransfer) (g : HostTrace) : Prop
  | empty (state : t.state = .empty) (fresh : t.Fresh) (sent : g.sent = [])
  | sendReq (state : t.state = .sendReq) (fresh : t.Fresh) (sent : g.sent = [])
  | getResponse (q : Packet) (state : t.state = .getResponse) (fresh : t.Fresh)
      (sent : g.sent = [q]) (type : q.type? = some .transferRequest)
      (own : q.clientTransferId = t.localId)
  | pending (state : t.state = .pending) (sent : started g.sent) (valid : g.valid = true)
      (heard : Heard t g)
  | active (state : t.state = .active) (sent : started g.sent) (valid : g.valid = true)
      (heard : Heard t g) (all : ∀ k ∈ t.listed, t.acceptList k ≠ .empty)
      (one : ∃ k ∈ t.listed, t.acceptList k = .accept)
  | cancel (state : t.state = .cancel) (sent : started g.sent)

theorem started_request {q : Packet} (type : q.type? = some .transferRequest) : started [q] :=
  ⟨0, by simp [type]⟩

theorem started.data {sent : List Packet} {q : Packet} (begun : started sent)
    (type : q.type? = some .transferData) : started (sent ++ [q]) := by
  obtain ⟨n, types⟩ := begun
  refine ⟨n + 1, ?_⟩
  rw [List.map_append, types, List.replicate_succ']
  simp [type]

theorem started.dialogue {sent : List Packet} (begun : started sent) :
    dialogue (sent.map Packet.type?) := by
  obtain ⟨n, types⟩ := begun
  refine ⟨n, .transferComplete, .inl rfl, ?_⟩
  rw [types, ← List.cons_append]
  exact List.prefix_append _ _

theorem started.ends {sent : List Packet} {q : Packet} {last : PacketType} (begun : started sent)
    (type : q.type? = some last) (ends : last = .transferComplete ∨ last = .transferCancel) :
    Quickshare.dialogue ((sent ++ [q]).map Packet.type?) := by
  obtain ⟨n, types⟩ := begun
  refine ⟨n, last, ends, ?_⟩
  rw [List.map_append, types]
  simp [type]

theorem Follows.granted {t : ActiveTransfer} {g : HostTrace} (follows : Follows t g)
    (active : t.state = .active) : started g.sent ∧ g.valid = true ∧ granted t g := by
  cases follows with
  | active _ sent valid heard all one =>
    exact ⟨sent, valid, fun k listed => heard.answered k (all k listed), one⟩
  | empty state => cases state.symm.trans active
  | sendReq state => cases state.symm.trans active
  | getResponse _ state => cases state.symm.trans active
  | pending state => cases state.symm.trans active
  | cancel state => cases state.symm.trans active

/-- A trace of the same packets that knows no less. -/
structure HostTrace.Grows (g h : HostTrace) : Prop where
  sent : h.sent = g.sent
  valid : g.valid = true → h.valid = true
  answered : ∀ c ∈ g.answered, c ∈ h.answered

theorem HostTrace.received_grows (g : HostTrace) (p : Packet) (t : ActiveTransfer) :
    g.Grows (g.received p t) := by
  refine ⟨rfl, fun valid => by simp [received, valid], fun c member => ?_⟩
  unfold received
  dsimp only
  split
  · exact List.mem_cons_of_mem _ member
  · exact member

theorem Heard.grows {t : ActiveTransfer} {g h : HostTrace} (heard : Heard t g) (grows : g.Grows h) :
    Heard t h :=
  ⟨fun k replied => grows.answered _ (heard.answered k replied), heard.plain⟩

theorem Follows.grows {t : ActiveTransfer} {g h : HostTrace} (follows : Follows t g)
    (grows : g.Grows h) : Follows t h := by
  have sent := grows.sent
  cases follows with
  | empty state fresh none => exact .empty state fresh (sent.trans none)
  | sendReq state fresh none => exact .sendReq state fresh (sent.trans none)
  | getResponse q state fresh one type own => exact .getResponse q state fresh (sent.trans one) type own
  | pending state begun valid heard =>
    exact .pending state (sent ▸ begun) (grows.valid valid) (heard.grows grows)
  | active state begun valid heard all one =>
    exact .active state (sent ▸ begun) (grows.valid valid) (heard.grows grows) all one
  | cancel state begun => exact .cancel state (sent ▸ begun)

/-- The first loop of `set_request` notes an answer of `cId`. -/
theorem Heard.hears {t : ActiveTransfer} {g h : HostTrace} (heard : Heard t g) (grows : g.Grows h)
    {cId : ClientId} (answers : cId ∈ h.answered) (reply : Bool) : Heard (t.answered cId reply) h := by
  unfold ActiveTransfer.answered
  split
  · exact heard.grows grows
  · rename_i i found
    have named : t.hdr.recipients i = cId := by
      simpa using List.find?_some found
    constructor
    · intro k replied
      by_cases here : k = i
      · subst here
        exact named ▸ answers
      · simp only [Function.update_of_ne here] at replied
        exact grows.answered _ (heard.answered k replied)
    · intro k
      by_cases here : k = i
      · subst here
        cases reply <;> simp
      · simp only [Function.update_of_ne here]
        exact heard.plain k

theorem answered_hdr (t : ActiveTransfer) (cId : ClientId) (reply : Bool) :
    (t.answered cId reply).hdr = t.hdr := by
  unfold ActiveTransfer.answered
  split <;> rfl

/-- An answer does not take another back. -/
theorem answered_replied {t : ActiveTransfer} {k : Fin transferClientsMax}
    (replied : t.acceptList k ≠ .empty) (cId : ClientId) (reply : Bool) :
    (t.answered cId reply).acceptList k ≠ .empty := by
  unfold ActiveTransfer.answered
  split
  · exact replied
  · rename_i i found
    by_cases here : k = i
    · subst here
      cases reply <;> simp
    · simpa only [Function.update_of_ne here] using replied

/-- `set_request` of a slot that waits for answers, or has them all. -/
theorem Follows.setRequest {t : ActiveTransfer} {g h : HostTrace} (follows : Follows t g)
    (grows : g.Grows h) (waits : t.state = .pending ∨ t.state = .active) {cId : ClientId}
    (answers : cId ∈ h.answered) (reply : Bool) : Follows (t.setRequest cId reply) h := by
  obtain ⟨begun, valid, heard⟩ : started g.sent ∧ g.valid = true ∧ Heard t g := by
    cases follows with
    | pending _ sent valid heard => exact ⟨sent, valid, heard⟩
    | active _ sent valid heard => exact ⟨sent, valid, heard⟩
    | empty state => simp [state] at waits
    | sendReq state => simp [state] at waits
    | getResponse _ state => simp [state] at waits
    | cancel state => simp [state] at waits
  have after := heard.hears grows answers reply
  have state := t.answered_state cId reply
  have listed : (t.answered cId reply).listed = t.listed := by
    simp only [ActiveTransfer.listed, answered_hdr]
  unfold ActiveTransfer.setRequest
  dsimp only
  split
  · exact .cancel rfl (grows.sent ▸ begun)
  · rename_i some
    split
    · rename_i all
      have replied : ∀ k ∈ (t.answered cId reply).listed,
          (t.answered cId reply).acceptList k ≠ .empty := by
        simpa using all
      obtain ⟨k, inside, accepts⟩ : ∃ k ∈ (t.answered cId reply).listed,
          (t.answered cId reply).acceptList k ≠ .deny := by
        simpa using some
      refine .active rfl (grows.sent ▸ begun) (grows.valid valid) ⟨after.answered, after.plain⟩
        replied ⟨k, inside, ?_⟩
      rcases after.plain k with silent | accept | deny
      · exact absurd silent (replied k inside)
      · exact accept
      · exact absurd deny accepts
    · rename_i missing
      rcases waits with pending | active
      · exact .pending (state.trans pending) (grows.sent ▸ begun) (grows.valid valid) after
      · exfalso
        apply missing
        cases follows with
        | active _ _ _ _ all _ =>
          rw [listed]
          simpa using fun k inside => answered_replied (all k inside) cId reply
        | empty state => cases state.symm.trans active
        | sendReq state => cases state.symm.trans active
        | getResponse _ state => cases state.symm.trans active
        | pending state => cases state.symm.trans active
        | cancel state => cases state.symm.trans active

theorem Follows.fresh {t : ActiveTransfer} {g : HostTrace} (follows : Follows t g)
    (idle : t.state = .empty) : t.Fresh := by
  cases follows with
  | empty _ fresh => exact fresh
  | sendReq state => cases state.symm.trans idle
  | getResponse _ state => cases state.symm.trans idle
  | pending state => cases state.symm.trans idle
  | active state => cases state.symm.trans idle
  | cancel state => cases state.symm.trans idle

/-- The trace of a slot that is EMPTY again starts anew. -/
theorem Follows.settled {t : ActiveTransfer} {g : HostTrace} (follows : Follows t g) :
    Follows t (if t.state = .empty then .none else g) := by
  split
  · rename_i idle
    exact .empty idle (follows.fresh idle) rfl
  · exact follows

/-- A slot that is EMPTY again is as it was before its first transfer. -/
theorem Follows.gone {t : ActiveTransfer} (g : HostTrace) (idle : t.state = .empty) (fresh : t.Fresh) :
    Follows t (if t.state = .empty then .none else g) := by
  rw [if_pos idle]
  exact .empty idle fresh rfl

namespace TransferManager

variable {m k next : TransferManager} {env : WorkEnv} {e : ManagerEvent} {p q : Packet}
variable {i : Fin simTransfersMax}

theorem HostCommanded.follows {t u : ActiveTransfer} {g : HostTrace} (done : HostCommanded t u)
    (follows : Follows t g) : Follows u g := by
  cases done with
  | kept => exact follows
  | refused idle f =>
    cases follows with
    | empty state fresh sent => exact .empty state ⟨fresh.tId, fresh.acceptList⟩ sent
    | sendReq state => cases state.symm.trans idle
    | getResponse _ state => cases state.symm.trans idle
    | pending state => cases state.symm.trans idle
    | active state => cases state.symm.trans idle
    | cancel state => cases state.symm.trans idle
  | requested idle =>
    cases follows with
    | empty state fresh sent => exact .sendReq rfl ⟨fresh.tId, fresh.acceptList⟩ sent
    | sendReq state => cases state.symm.trans idle
    | getResponse _ state => cases state.symm.trans idle
    | pending state => cases state.symm.trans idle
    | active state => cases state.symm.trans idle
    | cancel state => cases state.symm.trans idle
  | cancelled can =>
    cases follows with
    | empty state => simp [ActiveTransfer.canCancel, state] at can
    | sendReq state => simp [ActiveTransfer.canCancel, state] at can
    | getResponse q _ _ sent type => exact .cancel rfl (sent ▸ started_request type)
    | pending _ sent => exact .cancel rfl sent
    | active _ sent => exact .cancel rfl sent
    | cancel state => simp [ActiveTransfer.canCancel, state] at can

theorem Packet.loadInt64_setHdr (p : Packet) (hdr : TransferHdr) {off : Nat} (behind : 72 ≤ off) :
    (p.setHdr hdr).loadInt64 off = p.loadInt64 off := by
  rw [Mem.loadInt64, Mem.load, p.read_setHdr hdr (.inr behind), ← Mem.load, ← Mem.loadInt64]

theorem requestPacket_clientTransferId (t : ActiveTransfer) (p : Packet) :
    (requestPacket t p).clientTransferId = t.localId := by
  unfold requestPacket
  rw [Packet.clientTransferId, Packet.loadInt64_setHdr _ _ (by decide),
    Mem.loadInt64_store_apart _ (.inl (by decide))]
  split
  · rw [Mem.loadInt64_store_apart _ (.inl (by decide)), Mem.loadInt64_write_apart _ _ (.inl (by decide)),
      Mem.loadInt64_storeInt64 _ (by decide)]
  · rw [Mem.loadInt64_write_apart _ _ (.inl (by decide)), Mem.loadInt64_storeInt64 _ (by decide)]

/-- The slots the commands left follow their dialogues through the work. -/
theorem Worked.follows {emitted : Option (Slot × Packet)} {g : HostTrace}
    (worked : Worked k env p emitted next) (follows : Follows (k.hostTransfers i) g) :
    Follows (next.hostTransfers i)
      (if (next.hostTransfers i).state = .empty then .none else g.emitted i emitted) := by
  have other {j : Fin simTransfersMax} (q : Packet) (apart : i ≠ j) :
      g.emitted i (some (.host j, q)) = g := by
    simp [HostTrace.emitted, Ne.symm apart]
  have own (q : Packet) : (g.emitted i (some (.host i, q))).sent = g.sent ++ [q] := by
    simp [HostTrace.emitted]
  cases worked with
  | nothing => exact follows.settled
  | cancelRecv j => exact follows.settled
  | accept j => exact follows.settled
  | deny j => exact follows.settled
  | request j asked =>
    by_cases here : i = j
    · subst here
      apply Follows.settled
      rw [modifyHost_self]
      cases follows with
      | sendReq _ fresh sent =>
        refine .getResponse (requestPacket (k.hostTransfers i) p) rfl ⟨fresh.tId, fresh.acceptList⟩
          ?_ (requestPacket_type _ _) (requestPacket_clientTransferId _ _)
        rw [own, sent, List.nil_append]
      | empty state => cases state.symm.trans asked
      | getResponse _ state => cases state.symm.trans asked
      | pending state => cases state.symm.trans asked
      | active state => cases state.symm.trans asked
      | cancel state => cases state.symm.trans asked
    · rw [modifyHost_of_ne _ _ here, other _ here]
      exact follows.settled
  | @data q f j active read =>
    by_cases here : i = j
    · subst here
      apply Follows.settled
      rw [modifyHost_self]
      have type := dataPacket_type (k.hostTransfers i).hdr.tId read
      cases follows with
      | active _ begun valid heard all one =>
        refine .active active ?_ ?_ ⟨?_, heard.plain⟩ all one
        · rw [own]
          exact begun.data type
        · simpa [HostTrace.emitted] using valid
        · simpa [HostTrace.emitted] using heard.answered
      | empty state => cases state.symm.trans active
      | sendReq state => cases state.symm.trans active
      | getResponse _ state => cases state.symm.trans active
      | pending state => cases state.symm.trans active
      | cancel state => cases state.symm.trans active
    · rw [modifyHost_of_ne _ _ here, other _ here]
      exact follows.settled
  | cancelHost j cancelled =>
    rw [pushBacklog_hostTransfers]
    by_cases here : i = j
    · subst here
      rw [modifyHost_self]
      exact .gone _ rfl ⟨rfl, fun _ => rfl⟩
    · rw [modifyHost_of_ne _ _ here, other _ here]
      exact follows.settled
  | complete j active read =>
    rw [pushBacklog_hostTransfers]
    by_cases here : i = j
    · subst here
      rw [modifyHost_self]
      exact .gone _ rfl ⟨rfl, fun _ => rfl⟩
    · rw [modifyHost_of_ne _ _ here, other _ here]
      exact follows.settled
  | failed j active ripe read stopped =>
    rw [pushBacklog_hostTransfers]
    by_cases here : i = j
    · subst here
      rw [modifyHost_self]
      exact .gone _ rfl ⟨rfl, fun _ => rfl⟩
    · rw [modifyHost_of_ne _ _ here, other _ here]
      exact follows.settled

/-- What a slot emits continues its dialogue. -/
theorem Worked.inOrder {emitted : Option (Slot × Packet)} {g : HostTrace}
    (worked : Worked k env p emitted next) (follows : Follows (k.hostTransfers i) g)
    (emits : emitted = some (.host i, q)) : dialogue ((g.sent ++ [q]).map Packet.type?) ∧
      (q.type? = some .transferData ∨ q.type? = some .transferComplete →
        (k.hostTransfers i).state = .active) := by
  cases worked with
  | nothing => cases emits
  | cancelRecv j => cases emits
  | accept j => cases emits
  | deny j => cases emits
  | request j asked =>
    cases emits
    have type := requestPacket_type (k.hostTransfers i) p
    constructor
    · cases follows with
      | sendReq _ _ sent =>
        rw [sent]
        exact (started_request type).dialogue
      | empty state => cases state.symm.trans asked
      | getResponse _ state => cases state.symm.trans asked
      | pending state => cases state.symm.trans asked
      | active state => cases state.symm.trans asked
      | cancel state => cases state.symm.trans asked
    · rintro (data | complete)
      · cases type.symm.trans data
      · cases type.symm.trans complete
  | data j active read =>
    cases emits
    exact ⟨((follows.granted active).1.data (dataPacket_type _ read)).dialogue, fun _ => active⟩
  | complete j active read =>
    cases emits
    exact ⟨(follows.granted active).1.ends (completePacket_type _ _) (.inl rfl), fun _ => active⟩
  | failed j active ripe read stopped =>
    cases emits
    exact ⟨(follows.granted active).1.ends (cancelPacket_type _ _) (.inr rfl), fun _ => active⟩
  | cancelHost j cancelled =>
    cases emits
    have type := cancelPacket_type (k.hostTransfers i) p
    constructor
    · cases follows with
      | cancel _ begun => exact begun.ends type (.inr rfl)
      | empty state => cases state.symm.trans cancelled
      | sendReq state => cases state.symm.trans cancelled
      | getResponse _ state => cases state.symm.trans cancelled
      | pending state => cases state.symm.trans cancelled
      | active state => cases state.symm.trans cancelled
    · rintro (data | complete)
      · cases type.symm.trans data
      · cases type.symm.trans complete

/-- Every host slot is where its trace says. -/
def Following (s : TransferManager × Traces) : Prop :=
  ∀ i, Follows (s.1.hostTransfers i) (s.2 i)

theorem Following.inOrder {s : TransferManager × Traces} (following : Following s) :
    emitsInOrder s e := by
  intro i q emits
  obtain ⟨env, p, next, rfl, taken⟩ := emission_step emits
  have commanded := processCmds_host s.1 env i
  obtain ⟨order, busy⟩ := (step_worked taken).inOrder (commanded.follows (following i)) emits
  refine ⟨order, fun sends => ?_⟩
  have active := busy sends
  have same : (s.1.processCmds env).hostTransfers i = s.1.hostTransfers i := by
    generalize (s.1.processCmds env).hostTransfers i = u at commanded active ⊢
    cases commanded with
    | kept => rfl
    | refused idle f =>
      rw [idle] at active
      cases active
    | requested => cases active
    | cancelled => cases active
  rw [same] at active
  exact ((following i).granted active).2

theorem Following.confirms {s : TransferManager × Traces} (following : Following s) :
    confirmsOwn s e := by
  cases e with
  | cmd cmd => trivial
  | work env p => trivial
  | packet env p =>
    intro type next taken
    have waiting {i : Fin simTransfersMax} (waits : (s.1.hostTransfers i).state = .getResponse)
        (own : (s.1.hostTransfers i).localId = p.clientTransferId) : ∃ q ∈ (s.2 i).sent,
          q.type? = some .transferRequest ∧ q.clientTransferId = p.clientTransferId := by
      cases following i with
      | getResponse q _ _ sent request id =>
        exact ⟨q, by rw [sent]; exact List.mem_singleton_self q, request, id.trans own⟩
      | empty state => cases state.symm.trans waits
      | sendReq state => cases state.symm.trans waits
      | pending state => cases state.symm.trans waits
      | active state => cases state.symm.trans waits
      | cancel state => cases state.symm.trans waits
    have one {i : Fin simTransfersMax} {f : ActiveTransfer → ActiveTransfer}
        (sent : ∃ q ∈ (s.2 i).sent, q.type? = some .transferRequest ∧
          q.clientTransferId = p.clientTransferId) (j : Fin simTransfersMax)
        (changed : (s.1.modifyHost i f).hostTransfers j ≠ s.1.hostTransfers j) :
        (∃ q ∈ (s.2 j).sent, q.type? = some .transferRequest ∧
          q.clientTransferId = p.clientTransferId) ∧
        ∀ r, r ≠ j → (s.1.modifyHost i f).hostTransfers r = s.1.hostTransfers r := by
      have here : j = i := by
        by_contra other
        exact changed (modifyHost_of_ne _ _ other)
      subst here
      exact ⟨sent, fun r other => modifyHost_of_ne _ _ other⟩
    cases handle_handled taken with
    | ignored => exact ⟨rfl, fun j changed => absurd rfl changed⟩
    | valid i _ waits own => exact ⟨rfl, one (waiting waits own)⟩
    | invalid i _ waits own => exact ⟨rfl, one (waiting waits own)⟩
    | requested i named => simp [named] at type
    | dropped i named => simp [named] at type
    | left i named => simp [named] at type
    | replied i named => simp [named] at type
    | written i named => simp [named] at type
    | completed i named => simp [named] at type

theorem PacketHandled.follows {env : PacketEnv} {g : HostTrace}
    (handled : PacketHandled m env p next) (named : p.type? = some .transferCancel → p.tId ≠ 0)
    (follows : Follows (m.hostTransfers i) g) :
    Follows (next.hostTransfers i) (g.received p (m.hostTransfers i)) := by
  have grows := g.received_grows p (m.hostTransfers i)
  cases handled with
  | ignored => exact follows.grows grows
  | requested j => exact follows.grows grows
  | dropped j => exact follows.grows grows
  | written j => exact follows.grows grows
  | completed j => exact follows.grows grows
  | valid j type waits own =>
    by_cases here : i = j
    · subst here
      rw [modifyHost_self]
      cases follows with
      | getResponse q _ fresh sent request =>
        refine .pending rfl ?_ ?_ ⟨fun k replied => absurd (fresh.acceptList k) replied,
          fun k => .inl (fresh.acceptList k)⟩
        · rw [grows.sent, sent]
          exact started_request request
        · simp [HostTrace.received, type, own]
      | empty state => cases state.symm.trans waits
      | sendReq state => cases state.symm.trans waits
      | pending state => cases state.symm.trans waits
      | active state => cases state.symm.trans waits
      | cancel state => cases state.symm.trans waits
    · rw [modifyHost_of_ne _ _ here]
      exact follows.grows grows
  | invalid j type waits own =>
    by_cases here : i = j
    · subst here
      rw [modifyHost_self]
      cases follows with
      | getResponse q _ fresh sent request =>
        refine .cancel rfl ?_
        rw [grows.sent, sent]
        exact started_request request
      | empty state => cases state.symm.trans waits
      | sendReq state => cases state.symm.trans waits
      | pending state => cases state.symm.trans waits
      | active state => cases state.symm.trans waits
      | cancel state => cases state.symm.trans waits
    · rw [modifyHost_of_ne _ _ here]
      exact follows.grows grows
  | left j type none found =>
    by_cases here : i = j
    · subst here
      rw [modifyHost_self]
      obtain ⟨can, same⟩ := cancels_canCancel (TransferArray.search_some found)
      have waits : (m.hostTransfers i).state = .pending ∨ (m.hostTransfers i).state = .active := by
        cases follows with
        | getResponse _ _ fresh => exact absurd (same.trans fresh.tId) (named type)
        | pending state => exact .inl state
        | active state => exact .inr state
        | empty state => simp [ActiveTransfer.canCancel, state] at can
        | sendReq state => simp [ActiveTransfer.canCancel, state] at can
        | cancel state => simp [ActiveTransfer.canCancel, state] at can
      refine follows.setRequest grows waits ?_ false
      simp [HostTrace.received, answers, type, same]
    · rw [modifyHost_of_ne _ _ here]
      exact follows.grows grows
  | replied j type pending same =>
    by_cases here : i = j
    · subst here
      rw [modifyHost_self]
      refine follows.setRequest grows (.inl pending) ?_ _
      simp [HostTrace.received, answers, type, same]
    · rw [modifyHost_of_ne _ _ here]
      exact follows.grows grows

theorem Following.step {s t : TransferManager × Traces} (following : Following s)
    (named : cancelNamed e) (taken : traceStep s e = .ok t) : Following t := by
  obtain ⟨next, stepped, done⟩ := bind_ok taken
  cases done
  intro i
  cases e with
  | cmd cmd =>
    cases stepped
    have same : (s.1.sendCmd cmd).2.hostTransfers = s.1.hostTransfers := (sendCmd_slots s.1 cmd).2
    simp only [traced, same, emission, HostTrace.emitted]
    exact (following i).settled
  | work env p =>
    have commanded := (processCmds_host s.1 env i).follows (following i)
    exact (step_worked stepped).follows commanded
  | packet env p =>
    exact ((handle_handled stepped).follows named (following i)).settled

theorem following_init : Following (.init, fun _ => .none) :=
  fun _ => .empty rfl ⟨rfl, fun _ => rfl⟩ rfl

/-- The host's side of every transfer keeps to the protocol, for every order of
commands, work and packets whose cancels name a transfer. -/
theorem host_conforms (events : List ManagerEvent) (named : ∀ e ∈ events, cancelNamed e) :
    Guarded traceStep conforms (.init, fun _ => .none) events := by
  have given : Guarded traceStep (fun _ => cancelNamed) (.init, fun _ => .none) events :=
    .of_events named _
  apply given.transfer following_init
  · intro s e t following named taken
    exact following.step named taken
  · intro s e following _
    exact ⟨following.inOrder, following.confirms⟩

end TransferManager

/-- The types of the packets the events emit, in their order. -/
def TransferManager.emittedTypes (m : TransferManager) :
    List ManagerEvent → List (Option PacketType)
  | [] => []
  | e :: rest => ((m.emission e).map fun q => q.2.type?).toList ++
    match m.step e with
    | .ok next => next.emittedTypes rest
    | .error _ => []

/-- The server confirms a request for 101. -/
def fileValid (localId tId : TransferId) : Packet :=
  (((Packet.packetHdr .transferValid requestSize (Mem.zero packetMaxSize)).storeInt64 8
    tId).storeInt64 24 101).storeInt64 72 localId

/-- `c` accepts the transfer. -/
def acceptedBy (tId : TransferId) (c : ClientId) : Packet :=
  (((Packet.packetHdr .transferReply transferReplySize (Mem.zero packetMaxSize)).storeInt64 8
    tId).storeInt64 16 c).store 72 1 1

/-- `c` cancels the transfer. -/
def cancelledBy (tId : TransferId) (c : ClientId) : Packet :=
  ((Packet.packetHdr .transferCancel transferStateSize (Mem.zero packetMaxSize)).storeInt64 8
    tId).storeInt64 16 c

/-- The file of one byte, `now` microseconds after the start. -/
def WorkEnv.oneByteAt (now : Int) : WorkEnv := { WorkEnv.oneByte with now := now, later := now }

/-- A file is requested, confirmed, accepted and sent; the same file is then
requested again, confirmed and cancelled. -/
def fileSentTwice : List ManagerEvent :=
  [.cmd fileRequest, .work .oneByte (Mem.zero packetMaxSize), .packet .opening (fileValid 1 1),
    .packet .opening (acceptedBy 1 101), .work (.oneByteAt 1000000) (Mem.zero packetMaxSize),
    .work (.oneByteAt 2000000) (Mem.zero packetMaxSize), .cmd fileRequest,
    .work .oneByte (Mem.zero packetMaxSize), .packet .opening (fileValid 2 2),
    .packet .opening (cancelledBy 2 101), .work .oneByte (Mem.zero packetMaxSize)]

/-- One slot goes through both dialogues, each kept to. -/
theorem host_conforms_twice :
    TransferManager.init.emittedTypes fileSentTwice = [some .transferRequest, some .transferData,
      some .transferComplete, some .transferRequest, some .transferCancel] ∧
    Guarded TransferManager.traceStep TransferManager.conforms (.init, fun _ => .none)
      fileSentTwice := by
  have named : ∀ e ∈ fileSentTwice, TransferManager.cancelNamed e := by decide +kernel
  refine ⟨?_, TransferManager.host_conforms fileSentTwice named⟩
  decide +kernel

end Quickshare
