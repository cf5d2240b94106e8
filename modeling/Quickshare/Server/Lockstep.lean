import Quickshare.Server.StepRules
import Quickshare.Lib.Pairs

/-! Two servers side by side: plans with the same receivers succeed or fail
together, and keep queues related where their packets do. -/

namespace Quickshare

open Runs

/-- The same assertion fails. -/
def SameFault (left right : Fault × Server) : Prop := right.1 = left.1

/-- A relation of queues that have the same room. -/
def KeepsRoom (alike : Queue Packet → Queue Packet → Prop) : Prop :=
  ∀ q q', alike q q' → q'.count = q.count ∧ q'.len = q.len

/-- Plans with the same receivers that keep queues with room related. -/
def Plan.Alike (alike : Queue Packet → Queue Packet → Prop) : Plan → Plan → Prop :=
  List.Forall₂ fun left right => right.1 = left.1 ∧
    ∀ q q', q.full ≠ true → alike q q' → alike (q.pushed left.2) (q'.pushed right.2)

/-- Queue by queue the states are related. -/
def SameQueues (alike : Queue Packet → Queue Packet → Prop) (s t : Server) : Prop :=
  ∀ i, alike (s.client i).msgQueue (t.client i).msgQueue

/-- As many packets in as many slots. -/
def sameRoom (q q' : Queue Packet) : Prop := q'.count = q.count ∧ q'.len = q.len

variable {alike : Queue Packet → Queue Packet → Prop} {s t : Server} {plan other : Plan}

theorem sameRoom_pushed {q q' : Queue Packet} (same : sameRoom q q') (f g : Packet → Packet) :
    sameRoom (q.pushed f) (q'.pushed g) := by
  obtain ⟨count, len⟩ := same
  constructor
  · simp only [Queue.pushed, Queue.fill, count]
  · exact len

/-- Only the receivers of a plan matter for the room. -/
theorem Plan.alike_room (same : other.map Prod.fst = plan.map Prod.fst) :
    Plan.Alike sameRoom plan other := by
  induction plan generalizing other with
  | nil =>
    have none : other = [] := by simpa using same
    rw [none]
    exact .nil
  | cons head rest ih =>
    cases other with
    | nil => cases same
    | cons first more =>
      obtain ⟨receiver, later⟩ := List.cons.inj same
      exact .cons ⟨receiver, fun q q' _ room => sameRoom_pushed room _ _⟩ (ih later)

theorem Plan.Alike.receivers (both : plan.Alike alike other) :
    other.map Prod.fst = plan.map Prod.fst := by
  induction both with
  | nil => rfl
  | cons head _ ih => rw [List.map_cons, List.map_cons, head.1, ih]

theorem SameQueues.pushed {r : Slot} {f g : Packet → Packet} (same : SameQueues alike s t)
    (room : (s.client r).msgQueue.full ≠ true)
    (keep : ∀ q q', q.full ≠ true → alike q q' → alike (q.pushed f) (q'.pushed g)) :
    SameQueues alike (s.pushed r f) (t.pushed r g) := by
  intro i
  by_cases here : i = r
  · subst here
    have left := s.client_modify_self i fun c => { c with msgQueue := c.msgQueue.pushed f }
    have right := t.client_modify_self i fun c => { c with msgQueue := c.msgQueue.pushed g }
    have left' : ((s.pushed i f).client i).msgQueue = (s.client i).msgQueue.pushed f :=
      congrArg Client.msgQueue left
    have right' : ((t.pushed i g).client i).msgQueue = (t.client i).msgQueue.pushed g :=
      congrArg Client.msgQueue right
    rw [left', right']
    exact keep _ _ room (same i)
  · rw [s.pushed_client_of_ne f here, t.pushed_client_of_ne g here]
    exact same i

theorem Server.sendAll_alike (rooms : KeepsRoom alike) (same : SameQueues alike s t)
    (both : plan.Alike alike other) :
    Agree (SameQueues alike) SameFault (s.sendAll plan) (t.sendAll other) := by
  induction both generalizing s t with
  | nil => exact same
  | @cons left right rest more head _ ih =>
    obtain ⟨i, f⟩ := left
    obtain ⟨j, g⟩ := right
    obtain ⟨receiver, keep⟩ := head
    obtain rfl : j = i := receiver
    obtain ⟨count, len⟩ := rooms _ _ (same j)
    have full : (t.client j).msgQueue.full = (s.client j).msgQueue.full := by
      simp only [Queue.full, count, len]
    rw [sendAll_cons, sendAll_cons, full]
    by_cases none : (s.client j).msgQueue.full = true
    · rw [if_pos none, if_pos none]
      rfl
    · rw [if_neg none, if_neg none]
      exact ih (same.pushed none keep)

/-- Packets for the same connected clients. -/
theorem toConnected_alike {Item : Type} {first second : Item → Packet → Packet}
    (found : ∀ id, clientFindById t.clients id = clientFindById s.clients id)
    (keep : ∀ x q q', q.full ≠ true → alike q q' →
      alike (q.pushed (first x)) (q'.pushed (second x)))
    (key : Item → ClientId) (items : List Item) :
    Plan.Alike alike (toConnected s key first items) (toConnected t key second items) := by
  induction items with
  | nil => exact .nil
  | cons x rest ih =>
    have split (u : Server) (packet : Item → Packet → Packet) : toConnected u key packet (x :: rest) =
        ((clientFindById u.clients (key x)).map (·, packet x)).toList ++
          toConnected u key packet rest := rfl
    rw [split, split, found]
    cases clientFindById s.clients (key x) with
    | none => exact ih
    | some i => exact .cons ⟨rfl, keep x⟩ ih

/-- What two computations that send plans alike leave. -/
structure SentAlike (alike : Queue Packet → Queue Packet → Prop) (s t : Server)
    (first second : Database) (u v : Server) : Prop where
  queues : SameQueues alike u v
  left : SameClients s u
  right : SameClients t v
  firstDb : u.db = first
  secondDb : v.db = second

theorem Sends.agree {first second : Database} {r r' : Run Server} (rooms : KeepsRoom alike)
    (same : SameQueues alike s t) (both : plan.Alike alike other) (left : Sends s plan first r)
    (right : Sends t other second r') :
    Agree (SentAlike alike s t first second) SameFault r r' := by
  have space : SameQueues sameRoom s t := fun i => rooms _ _ (same i)
  -- whatever the packets, plans with these receivers succeed or fail together
  have together (p q : Plan) (leftwards : p.map Prod.fst = plan.map Prod.fst)
      (rightwards : q.map Prod.fst = other.map Prod.fst) :
      Agree (SameQueues sameRoom) SameFault (s.sendAll p) (t.sendAll q) :=
    Server.sendAll_alike (fun _ _ room => room) space
      (Plan.alike_room (rightwards.trans (both.receivers.trans leftwards.symm)))
  cases r with
  | ok u =>
    obtain ⟨w, sent, equal⟩ := left.ok u rfl
    cases r' with
    | ok v =>
      obtain ⟨x, sent', equal'⟩ := right.ok v rfl
      have related := Server.sendAll_alike rooms same both
      rw [sent, sent'] at related
      refine ⟨?_, left.same_ok, right.same_ok, left.db_ok, right.db_ok⟩
      rw [equal, equal']
      exact related
    | error failed =>
      obtain ⟨tried, x, receivers, sent', -⟩ := right.error failed.1 failed.2 rfl
      have both := together plan tried rfl receivers
      rw [sent, sent'] at both
      cases both
  | error failed =>
    obtain ⟨tried, w, receivers, sent, -⟩ := left.error failed.1 failed.2 rfl
    cases r' with
    | ok v =>
      obtain ⟨x, sent', -⟩ := right.ok v rfl
      have both := together tried other receivers rfl
      rw [sent, sent'] at both
      cases both
    | error failed' =>
      obtain ⟨tried', x, receivers', sent', -⟩ := right.error failed'.1 failed'.2 rfl
      exact (Server.sendAll_fault sent').trans (Server.sendAll_fault sent).symm

/-! Plans look at the clients and the tables only. -/

section Plans

variable {s t : Server} {c : Slot}

theorem dataPlan_same (same : SameClients s t) (db : t.db = s.db) (c : Slot) :
    dataPlan t c = dataPlan s c := by
  simp only [dataPlan, relayPlan, same.decryptBuf, db, toConnected_same same]

theorem completePlan_same (same : SameClients s t) (db : t.db = s.db) (c : Slot) :
    completePlan t c = completePlan s c := by
  simp only [completePlan, relayPlan, same.decryptBuf, same.id, db, toConnected_same same]

theorem cancelPlan_same (same : SameClients s t) (db : t.db = s.db) (c : Slot) :
    cancelPlan t c = cancelPlan s c := by
  have body : cancelBody t c = cancelBody s c := by
    funext db
    simp only [cancelBody, same.decryptBuf, same.id, cancelTransferPlan_same same,
      leavePlan_same same]
  rw [cancelPlan, body, db, cancelPlan]

theorem disconnectPlan_same (same : SameClients s t) (db : t.db = s.db) (c : Slot) :
    disconnectPlan t c = disconnectPlan s c := by
  have transfers : cancelTransferPlan t c = cancelTransferPlan s c := by
    funext db tId
    exact cancelTransferPlan_same same c db tId
  have body : disconnectBody t c = disconnectBody s c := by
    funext db
    simp only [disconnectBody, same.id, transfers, leavePlan_same same]
  rw [disconnectPlan, body, db, disconnectPlan]

theorem leavingPlan_same (same : SameClients s t) (db : t.db = s.db) (c : Slot) :
    leavingPlan t c = leavingPlan s c := by
  simp only [leavingPlan, same.state, disconnectPlan_same same db, goodbyePlan_same same, db]

theorem replyCreator_same (same : SameClients s t) (db : t.db = s.db) (c : Slot) :
    replyCreator t c = replyCreator s c := by
  simp only [replyCreator, same.decryptBuf, same.id, db]

theorem replyPlan_same (same : SameClients s t) (db : t.db = s.db) (c : Slot) :
    replyPlan t c = replyPlan s c := by
  simp only [replyPlan, replyCreator_same same db, same.decryptBuf, same.id,
    toConnected_same same]

theorem creatorGone_same (same : SameClients s t) (db : t.db = s.db) :
    t.creatorGone c ↔ s.creatorGone c := by
  simp only [Server.creatorGone, replyCreator_same same db, same.findById]

theorem introduced_same (same : SameClients s t) (db : t.db = s.db) (c : Slot) :
    t.introduced c = s.introduced c := by
  simp only [Server.introduced, same.decryptBuf, db]

theorem refusePlan_same (same : SameClients s t) (c : Slot) : refusePlan t c = refusePlan s c := by
  simp only [refusePlan, same.decryptBuf]

theorem grantPlan_same (same : SameClients s t) (c : Slot) (p : Packet) (tId : TransferId) :
    grantPlan t c p tId = grantPlan s c p tId := by
  simp only [grantPlan, same.id, toConnected_same same]

/-- The recipients are checked by their sessions and ids. -/
theorem checkRecipients_congr {clients others : ClientList} {client other : Client}
    {p q : Packet} {indices : List Nat}
    (found : ∀ cId, clientFindById others cId = clientFindById clients cId)
    (session : ∀ r, (others.list r).sessionId = (clients.list r).sessionId)
    (cId : ∀ r, (others.list r).id = (clients.list r).id)
    (own : other.sessionId = client.sessionId) (recipients : ∀ i ∈ indices, q.hdrTo i = p.hdrTo i)
    (tId : TransferId) (db : Database) :
    checkRecipients others other tId q db indices =
      checkRecipients clients client tId p db indices := by
  induction indices generalizing db with
  | nil => rfl
  | cons i rest ih =>
    have here := recipients i (List.mem_cons_self ..)
    have later (db : Database) :=
      ih (fun j member => recipients j (List.mem_cons_of_mem _ member)) db
    simp only [checkRecipients, here, later, found, session, own, cId]

theorem recorded_same (same : SameClients s t) (db : t.db = s.db) (c : Slot) :
    t.recorded c = s.recorded c := by
  have begun : t.begun = s.begun := by rw [Server.begun, db, Server.begun]
  have checked (tId : TransferId) (p : Packet) (db : Database) (indices : List Nat) :
      checkRecipients t.clients (t.client c) tId p db indices =
        checkRecipients s.clients (s.client c) tId p db indices :=
    checkRecipients_congr same.findById (fun r => same.sessionId r) (fun r => same.id r)
      (same.sessionId c) (fun _ _ => rfl) tId db
  simp only [Server.recorded, recordTransfer, begun, same.id, same.decryptBuf, checked]

end Plans

end Quickshare
