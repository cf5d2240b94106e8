import Quickshare.Client.Conformance
import Mathlib.Data.List.TakeWhile

/-! What the answers of the recipients make of a host slot. A reply counts while
the slot is PENDING, a cancel also while it is ACTIVE; both are entered in the
accept list, and every answer decides anew. -/

namespace Quickshare

open Runs Bytes

/-- The answers to a transfer, the last one first: who, and whether it accepts. -/
abbrev Answers := List (ClientId × Bool)

/-- What an event answers to the transfer. A cancel is a refusal. -/
def answerOf (tId : TransferId) : ManagerEvent → Option (ClientId × Bool)
  | .packet _ p =>
    if p.tId = tId then match p.type? with
      | some .transferReply => some (p.hdrFrom, p.replyAccept ≠ 0)
      | some .transferCancel => some (p.hdrFrom, false)
      | _ => none
    else none
  | _ => none

/-- Every recipient has answered. -/
def answeredAll (recipients : List ClientId) (answers : Answers) : Bool :=
  recipients.all fun c => (answers.lookup c).isSome

/-- The last answer of some recipient is to accept. -/
def someAccepts (recipients : List ClientId) (answers : Answers) : Bool :=
  recipients.any fun c => answers.lookup c = some true

namespace ActiveTransfer

/-- The recipients up to the first 0. -/
def recipientList (t : ActiveTransfer) : List ClientId := t.listed.map t.hdr.recipients

/-- The slot holds the transfer. -/
def carries (t : ActiveTransfer) (tId : TransferId) : Prop := t.state ≠ .empty ∧ t.hdr.tId = tId

instance (t : ActiveTransfer) (tId : TransferId) : Decidable (t.carries tId) :=
  inferInstanceAs (Decidable (_ ∧ _))

/-- The entry of a recipient whose last answer this is. -/
def entry : Option Bool → TransferState
  | none => .empty
  | some true => .accept
  | some false => .deny

variable {t u : ActiveTransfer} {k : Fin transferClientsMax} {c : ClientId} {reply : Bool}
variable {answers : Answers}

/-- The first loop of `set_request` finds a recipient where it is listed. -/
theorem find_listed (distinct : t.recipientList.Nodup) (listed : k ∈ t.listed) :
    ((List.finRange transferClientsMax).find? fun i => t.hdr.recipients i = t.hdr.recipients k) =
      some k := by
  have split : t.listed ++ (List.finRange transferClientsMax).dropWhile
      (fun i => t.hdr.recipients i ≠ 0) = List.finRange transferClientsMax :=
    List.takeWhile_append_dropWhile
  rw [← split, List.find?_append]
  cases found : t.listed.find? fun i => t.hdr.recipients i = t.hdr.recipients k with
  | none =>
    have absent := List.find?_eq_none.mp found k listed
    simp at absent
  | some i =>
    have same : t.hdr.recipients i = t.hdr.recipients k := by simpa using List.find?_some found
    have here := List.mem_of_find?_eq_some found
    rw [List.inj_on_of_nodup_map distinct here listed same]
    rfl

/-- An answer is entered where its recipient is listed, and nowhere else. -/
theorem answered_entry (distinct : t.recipientList.Nodup) (listed : k ∈ t.listed) (c : ClientId)
    (reply : Bool) : (t.answered c reply).acceptList k =
      if t.hdr.recipients k = c then entry (some reply) else t.acceptList k := by
  unfold answered
  by_cases named : t.hdr.recipients k = c
  · subst named
    rw [find_listed distinct listed, if_pos rfl]
    cases reply <;> simp [entry]
  · rw [if_neg named]
    split
    · rfl
    · rename_i i found
      have same : t.hdr.recipients i = c := by simpa using List.find?_some found
      have other : k ≠ i := by
        rintro rfl
        exact named same
      exact Function.update_of_ne other ..

/-- The accept list holds the last answers. -/
def Entered (t : ActiveTransfer) (answers : Answers) : Prop :=
  ∀ k ∈ t.listed, t.acceptList k = entry (answers.lookup (t.hdr.recipients k))

theorem Entered.answered (entered : t.Entered answers) (distinct : t.recipientList.Nodup)
    (c : ClientId) (reply : Bool) : (t.answered c reply).Entered ((c, reply) :: answers) := by
  have hdr := answered_hdr t c reply
  have listed : (t.answered c reply).listed = t.listed := by simp only [ActiveTransfer.listed, hdr]
  intro k inside
  rw [listed] at inside
  rw [answered_entry distinct inside, hdr, List.lookup_cons]
  by_cases named : t.hdr.recipients k = c
  · have here : (t.hdr.recipients k == c) = true := beq_iff_eq.mpr named
    rw [if_pos named, here]
  · have apart : (t.hdr.recipients k == c) = false := beq_false_of_ne named
    rw [if_neg named, apart]
    exact entered k inside

/-- Where a slot is with the answers given so far. -/
inductive Polled (t : ActiveTransfer) (answers : Answers) : Prop
  | pending (state : t.state = .pending) (entered : t.Entered answers)
      (open' : answeredAll t.recipientList answers = false)
  | active (state : t.state = .active) (some : ∃ k ∈ t.listed, t.acceptList k ≠ .deny)
      (full : ∀ k ∈ t.listed, t.acceptList k ≠ .empty)
      (all : answeredAll t.recipientList answers = true)
  | cancel (state : t.state = .cancel) (all : answeredAll t.recipientList answers = true)

theorem entry_eq_empty {answer : Option Bool} : entry answer = .empty ↔ answer = none := by
  rcases answer with _ | _ | _ <;> simp [entry]

theorem entry_eq_deny {answer : Option Bool} : entry answer = .deny ↔ answer = some false := by
  rcases answer with _ | _ | _ <;> simp [entry]

theorem Entered.all_iff (entered : t.Entered answers) :
    (∀ k ∈ t.listed, t.acceptList k ≠ .empty) ↔ answeredAll t.recipientList answers = true := by
  simp only [answeredAll, recipientList, List.all_map, List.all_eq_true, Function.comp_apply]
  refine forall_congr' fun k => forall_congr' fun inside => ?_
  rw [entered k inside, ne_eq, entry_eq_empty, Option.isSome_iff_ne_none]

/-- What the answers decide once they are complete. -/
theorem Entered.denied_iff (entered : t.Entered answers)
    (all : answeredAll t.recipientList answers = true) :
    (∀ k ∈ t.listed, t.acceptList k = .deny) ↔ someAccepts t.recipientList answers = false := by
  simp only [someAccepts, recipientList, List.any_map, List.any_eq_false, Function.comp_apply]
  refine forall_congr' fun k => forall_congr' fun inside => ?_
  have replied := entered.all_iff.mpr all k inside
  rw [entered k inside, ne_eq, entry_eq_empty] at replied
  rw [entered k inside, entry_eq_deny]
  cases last : answers.lookup (t.hdr.recipients k) with
  | none => exact absurd last replied
  | some accepts => simp

theorem answeredAll_cons {recipients : List ClientId} (answer : ClientId × Bool)
    (all : answeredAll recipients answers = true) :
    answeredAll recipients (answer :: answers) = true := by
  simp only [answeredAll, List.all_eq_true] at all ⊢
  intro r member
  rw [List.lookup_cons]
  split
  · rfl
  · exact all r member

/-- What an event makes of the slot, by the answers before and after it. -/
structure Decided (t u : ActiveTransfer) (before after : Answers) : Prop where
  hdr : u.hdr = t.hdr
  /-- It waits for every recipient. -/
  waits : answeredAll u.recipientList after = false → u.state = .pending
  /-- The answer that completes them decides. -/
  decides : answeredAll u.recipientList before = false → answeredAll u.recipientList after = true →
    u.state = if someAccepts u.recipientList after then .active else .cancel
  /-- An ACTIVE slot stays so, or is cancelled. -/
  active : t.state = .active → u.state = .active ∨ u.state = .cancel
  /-- It is cancelled once every recipient's entry is DENY. -/
  refused : t.state = .active → (u.state = .cancel ↔ ∀ k ∈ u.listed, u.acceptList k = .deny)

/-- The dialogue with the recipients is the same. -/
structure Same (t u : ActiveTransfer) : Prop where
  state : u.state = t.state
  hdr : u.hdr = t.hdr
  acceptList : u.acceptList = t.acceptList

theorem Same.refl (t : ActiveTransfer) : Same t t := ⟨rfl, rfl, rfl⟩

theorem Same.trans {v : ActiveTransfer} (first : Same t u) (second : Same u v) : Same t v :=
  ⟨second.state.trans first.state, second.hdr.trans first.hdr,
    second.acceptList.trans first.acceptList⟩

theorem listed_congr (same : u.hdr = t.hdr) : u.listed = t.listed := by
  simp only [ActiveTransfer.listed, same]

theorem recipientList_congr (same : u.hdr = t.hdr) : u.recipientList = t.recipientList := by
  simp only [recipientList, listed_congr same, same]

/-- An answer that is not heard changes nothing, unless the slot waits for it. -/
theorem Polled.kept {after : Answers} (polled : t.Polled answers) (same : Same t u)
    (unheard : after = answers ∨ t.state ≠ .pending ∧ ∃ answer, after = answer :: answers) :
    u.Polled after ∧ Decided t u answers after := by
  have list := recipientList_congr same.hdr
  have listed := listed_congr same.hdr
  have later (all : answeredAll t.recipientList answers = true) :
      answeredAll t.recipientList after = true := by
    rcases unheard with rfl | ⟨-, answer, rfl⟩
    · exact all
    · exact answeredAll_cons answer all
  cases polled with
  | pending state entered open' =>
    obtain rfl : after = answers := by
      rcases unheard with same | ⟨other, -⟩
      · exact same
      · exact absurd state other
    refine ⟨.pending (same.state.trans state) ?_ (by rw [list, open']), same.hdr, fun _ =>
      same.state.trans state, fun before now => ?_, fun active => ?_, fun active => ?_⟩
    · intro k inside
      rw [listed] at inside
      rw [same.acceptList, same.hdr, entered k inside]
    · rw [before] at now
      cases now
    · rw [state] at active
      cases active
    · rw [state] at active
      cases active
  | active state some full all =>
    refine ⟨.active (same.state.trans state) ?_ ?_ (by rw [list, later all]), same.hdr, fun waits => ?_,
      fun before _ => ?_, fun _ => .inl (same.state.trans state), fun _ => ?_⟩
    · rw [listed, same.acceptList]
      exact some
    · rw [listed, same.acceptList]
      exact full
    · rw [list, later all] at waits
      cases waits
    · rw [list, all] at before
      cases before
    · rw [same.state, state, listed, same.acceptList]
      obtain ⟨k, inside, other⟩ := some
      exact iff_of_false (by decide) fun denied => other (denied k inside)
  | cancel state all =>
    refine ⟨.cancel (same.state.trans state) (by rw [list, later all]), same.hdr, fun waits => ?_,
      fun before _ => ?_, fun active => ?_, fun active => ?_⟩
    · rw [list, later all] at waits
      cases waits
    · rw [list, all] at before
      cases before
    · rw [state] at active
      cases active
    · rw [state] at active
      cases active

/-- The three cases of `set_request`. -/
theorem setRequest_cases (t : ActiveTransfer) (c : ClientId) (reply : Bool) :
    ((∀ k ∈ t.listed, (t.answered c reply).acceptList k = .deny) ∧
        t.setRequest c reply = { t.answered c reply with state := .cancel }) ∨
      ((∃ k ∈ t.listed, (t.answered c reply).acceptList k ≠ .deny) ∧
        (∀ k ∈ t.listed, (t.answered c reply).acceptList k ≠ .empty) ∧
        t.setRequest c reply = { t.answered c reply with state := .active }) ∨
      ((∃ k ∈ t.listed, (t.answered c reply).acceptList k ≠ .deny) ∧
        (∃ k ∈ t.listed, (t.answered c reply).acceptList k = .empty) ∧
        t.setRequest c reply = t.answered c reply) := by
  have listed := listed_congr (answered_hdr t c reply)
  unfold setRequest
  dsimp only
  rw [listed]
  split
  · rename_i denied
    exact .inl ⟨by simpa using denied, rfl⟩
  · rename_i other
    have other : ∃ k ∈ t.listed, (t.answered c reply).acceptList k ≠ .deny := by simpa using other
    split
    · rename_i full
      exact .inr (.inl ⟨other, by simpa using full, rfl⟩)
    · rename_i missing
      exact .inr (.inr ⟨other, by simpa using missing, rfl⟩)

/-- An answer to a slot that waits. -/
theorem Polled.answered_pending (polled : t.Polled answers) (pending : t.state = .pending)
    (distinct : t.recipientList.Nodup) (c : ClientId) (reply : Bool) :
    (t.setRequest c reply).Polled ((c, reply) :: answers) ∧
      Decided t (t.setRequest c reply) answers ((c, reply) :: answers) := by
  have entered : t.Entered answers := by
    cases polled with
    | pending _ entered => exact entered
    | active state => cases state.symm.trans pending
    | cancel state => cases state.symm.trans pending
  have heard := entered.answered distinct c reply
  have hdr := answered_hdr t c reply
  have listed := listed_congr hdr
  have idle (active : t.state = .active) : False := by
    rw [pending] at active
    cases active
  rcases setRequest_cases t c reply with ⟨denied, sets⟩ | ⟨other, full, sets⟩ | ⟨other, missing, sets⟩
  · rw [← listed] at denied
    have all := heard.all_iff.mp fun k inside => by
      rw [denied k inside]
      decide
    have none := (heard.denied_iff all).mp denied
    rw [sets]
    refine ⟨.cancel rfl all, hdr, fun waits => ?_, fun _ _ => ?_, fun active => (idle active).elim,
      fun active => (idle active).elim⟩
    · exact absurd (waits.symm.trans all) (by decide)
    · show TransferState.cancel = if someAccepts (t.answered c reply).recipientList _ then _ else _
      rw [none]
      rfl
  · rw [← listed] at other full
    have all := heard.all_iff.mp full
    have some : someAccepts (t.answered c reply).recipientList ((c, reply) :: answers) = true := by
      by_contra none
      obtain ⟨k, inside, accepts⟩ := other
      exact accepts ((heard.denied_iff all).mpr (by simpa using none) k inside)
    rw [sets]
    refine ⟨.active rfl other full all, hdr, fun waits => ?_, fun _ _ => ?_,
      fun active => (idle active).elim, fun active => (idle active).elim⟩
    · exact absurd (waits.symm.trans all) (by decide)
    · show TransferState.active = if someAccepts (t.answered c reply).recipientList _ then _ else _
      rw [some]
      rfl
  · rw [← listed] at missing
    have state := (t.answered_state c reply).trans pending
    have open' : answeredAll (t.answered c reply).recipientList ((c, reply) :: answers) = false := by
      by_contra all
      obtain ⟨k, inside, silent⟩ := missing
      exact heard.all_iff.mpr (by simpa using all) k inside silent
    rw [sets]
    refine ⟨.pending state heard open', hdr, fun _ => state, fun _ all => ?_,
      fun active => (idle active).elim, fun active => (idle active).elim⟩
    exact absurd (open'.symm.trans all) (by decide)

/-- A cancel to a slot that is ACTIVE. -/
theorem Polled.answered_active (polled : t.Polled answers) (active : t.state = .active)
    (c : ClientId) (reply : Bool) : (t.setRequest c reply).Polled ((c, reply) :: answers) ∧
      Decided t (t.setRequest c reply) answers ((c, reply) :: answers) := by
  obtain ⟨full, all⟩ : (∀ k ∈ t.listed, t.acceptList k ≠ .empty) ∧
      answeredAll t.recipientList answers = true := by
    cases polled with
    | active _ _ full all => exact ⟨full, all⟩
    | pending state => cases state.symm.trans active
    | cancel state => cases state.symm.trans active
  have hdr := answered_hdr t c reply
  have listed := listed_congr hdr
  have list := recipientList_congr hdr
  have later := answeredAll_cons (c, reply) all
  have before (open' : answeredAll t.recipientList answers = false) : False := by
    rw [all] at open'
    cases open'
  have waits (open' : answeredAll t.recipientList ((c, reply) :: answers) = false) : False := by
    rw [later] at open'
    cases open'
  rw [← list] at later before waits
  rcases setRequest_cases t c reply with ⟨denied, sets⟩ | ⟨other, full', sets⟩ | ⟨other, missing, sets⟩
  · rw [← listed] at denied
    rw [sets]
    exact ⟨.cancel rfl later, hdr, fun open' => (waits open').elim, fun open' _ => (before open').elim,
      fun _ => .inr rfl, fun _ => iff_of_true rfl denied⟩
  · rw [← listed] at other full'
    rw [sets]
    refine ⟨.active rfl other full' later, hdr, fun open' => (waits open').elim,
      fun open' _ => (before open').elim, fun _ => .inl rfl, fun _ => ?_⟩
    obtain ⟨k, inside, accepts⟩ := other
    exact iff_of_false (by simp) fun denied => accepts (denied k inside)
  · obtain ⟨k, inside, silent⟩ := missing
    exact absurd silent (answered_replied (full k inside) c reply)

end ActiveTransfer

namespace TransferManager

variable {m next : TransferManager} {e : ManagerEvent} {i : Fin simTransfersMax} {tId : TransferId}

/-- The slot is in use, and no other slot carries the id. -/
structure Sole (m : TransferManager) (i : Fin simTransfersMax) (tId : TransferId) : Prop where
  held : (m.hostTransfers i).state ≠ .empty
  host : ∀ j, j ≠ i → ¬ (m.hostTransfers j).carries tId
  recv : ∀ j, ¬ (m.recvTransfers j).carries tId

instance (m : TransferManager) (i : Fin simTransfersMax) (tId : TransferId) :
    Decidable (m.Sole i tId) :=
  decidable_of_iff ((m.hostTransfers i).state ≠ .empty ∧
      (∀ j, j ≠ i → ¬ (m.hostTransfers j).carries tId) ∧ ∀ j, ¬ (m.recvTransfers j).carries tId)
    ⟨fun sole => ⟨sole.1, sole.2.1, sole.2.2⟩, fun sole => ⟨sole.held, sole.host, sole.recv⟩⟩

/-- The command does not cancel the transfer. -/
def spares (tId : TransferId) : TransferCmd → Bool
  | .cancel other => other ≠ tId
  | _ => true

/-- One event, with the answers to the transfer. -/
def answerStep (tId : TransferId) (s : TransferManager × Answers) (e : ManagerEvent) :
    Except Abort (TransferManager × Answers) := do
  let next ← s.1.step e
  return (next, (answerOf tId e).toList ++ s.2)

/-- The user does not cancel the transfer, and its slot stays in use and the only
one with its id. -/
def undisturbed (i : Fin simTransfersMax) (tId : TransferId) (s : TransferManager × Answers)
    (e : ManagerEvent) : Prop :=
  (∀ cmd, e = .cmd cmd → spares tId cmd = true) ∧ ∀ next, s.1.step e = .ok next → next.Sole i tId

/-- What the event makes of the slot is what the answers decide. -/
def decides (i : Fin simTransfersMax) (tId : TransferId) (s : TransferManager × Answers)
    (e : ManagerEvent) : Prop :=
  ∀ next, s.1.step e = .ok next → (s.1.hostTransfers i).Decided (next.hostTransfers i) s.2
    ((answerOf tId e).toList ++ s.2)

/-- A slot that is asking its recipients. -/
structure Asking (i : Fin simTransfersMax) (tId : TransferId) (s : TransferManager × Answers) :
    Prop where
  named : (s.1.hostTransfers i).hdr.tId = tId
  distinct : (s.1.hostTransfers i).recipientList.Nodup
  polled : (s.1.hostTransfers i).Polled s.2
  sole : s.1.Sole i tId
  spared : ∀ cmd ∈ s.1.cmdQueue, spares tId cmd = true

/-- A slot that alone matches is the one found. -/
theorem search_unique {ts : TransferArray} {p : ActiveTransfer → Bool} (here : p (ts i) = true)
    (others : ∀ j, j ≠ i → p (ts j) = false) : ts.search p = some i := by
  cases found : ts.search p with
  | none =>
    rw [TransferArray.search_none found i] at here
    cases here
  | some j =>
    by_contra other
    have apart : j ≠ i := fun same => other (congrArg some same)
    have matched := TransferArray.search_some found
    rw [others j apart] at matched
    cases matched

theorem search_absent {ts : TransferArray} {p : ActiveTransfer → Bool}
    (none : ∀ j, p (ts j) = false) : ts.search p = Option.none := by
  cases found : ts.search p with
  | none => rfl
  | some j =>
    have matched := TransferArray.search_some found
    rw [none j] at matched
    cases matched

theorem cancels_carries {t : ActiveTransfer} (cancels : TransferManager.cancels tId t = true) :
    t.carries tId := by
  obtain ⟨can, named⟩ := cancels_canCancel cancels
  refine ⟨?_, named.symm⟩
  rintro idle
  simp [ActiveTransfer.canCancel, idle] at can

/-- The commands leave a slot in use alone that they do not cancel. -/
theorem processCmds_same (env : WorkEnv) (held : (m.hostTransfers i).state ≠ .empty)
    (named : (m.hostTransfers i).hdr.tId = tId) (spared : ∀ cmd ∈ m.cmdQueue, spares tId cmd = true) :
    ActiveTransfer.Same (m.hostTransfers i) ((m.processCmds env).hostTransfers i) := by
  refine processCmds_rule
    (P := fun k => ActiveTransfer.Same (m.hostTransfers i) (k.hostTransfers i))
    m env (.refl _) (fun k cmd next member same done => ?_) fun k same => same
  cases done with
  | unmet => exact same
  | refused j idle =>
    by_cases here : i = j
    · subst here
      exact absurd (same.state.symm.trans idle) held
    · rw [modifyHost_of_ne _ _ here]
      exact same
  | requested j idle =>
    by_cases here : i = j
    · subst here
      exact absurd (same.state.symm.trans idle) held
    · rw [nextId_hostTransfers, modifyHost_of_ne _ _ here]
      exact same
  | replied j => exact same
  | cancelledRecv j => exact same
  | @cancelledHost other j none found =>
    by_cases here : i = j
    · subst here
      have meant := (cancels_carries (TransferArray.search_some found)).2
      rw [same.hdr, named] at meant
      have spares := spared _ member
      simp [TransferManager.spares, meant] at spares
    · rw [modifyHost_of_ne _ _ here]
      exact same

/-- `do_work` leaves a slot alone that no longer has its request to send, unless it
empties it. -/
theorem Worked.same {env : WorkEnv} {p : Packet} {emitted : Option (Slot × Packet)}
    (worked : Worked m env p emitted next) (held : (next.hostTransfers i).state ≠ .empty)
    (asked : (m.hostTransfers i).state ≠ .sendReq) :
    ActiveTransfer.Same (m.hostTransfers i) (next.hostTransfers i) := by
  have zeroed (j : Fin simTransfersMax) (f : ActiveTransfer → ActiveTransfer) (state : InfoState)
      (file : List UInt8) (empties : (f (m.hostTransfers j)).state = .empty)
      (held : (((m.modifyHost j f).pushBacklog state file).hostTransfers i).state ≠ .empty) :
      ActiveTransfer.Same (m.hostTransfers i)
        (((m.modifyHost j f).pushBacklog state file).hostTransfers i) := by
    rw [pushBacklog_hostTransfers] at held ⊢
    by_cases here : i = j
    · subst here
      rw [modifyHost_self] at held
      exact absurd empties held
    · rw [modifyHost_of_ne _ _ here]
      exact .refl _
  cases worked with
  | request j sends =>
    by_cases here : i = j
    · subst here
      exact absurd sends asked
    · rw [modifyHost_of_ne _ _ here]
      exact .refl _
  | data j =>
    by_cases here : i = j
    · subst here
      rw [modifyHost_self]
      exact ⟨rfl, rfl, rfl⟩
    · rw [modifyHost_of_ne _ _ here]
      exact .refl _
  | cancelHost j => exact zeroed j _ _ _ rfl held
  | complete j => exact zeroed j _ _ _ rfl held
  | failed j => exact zeroed j _ _ _ rfl held
  | _ => exact .refl _

theorem Worked.cmdQueue {env : WorkEnv} {p : Packet} {emitted : Option (Slot × Packet)}
    (worked : Worked m env p emitted next) : next.cmdQueue = m.cmdQueue := by
  cases worked <;> rfl

/-- A packet that answers nothing leaves a slot alone that has its response. -/
theorem PacketHandled.same {env : PacketEnv} {p : Packet} (handled : PacketHandled m env p next)
    (silent : answerOf tId (.packet env p) = none) (named : (m.hostTransfers i).hdr.tId = tId)
    (responded : (m.hostTransfers i).state ≠ .getResponse) :
    ActiveTransfer.Same (m.hostTransfers i) (next.hostTransfers i) := by
  cases handled with
  | valid j type waits =>
    by_cases here : i = j
    · subst here
      exact absurd waits responded
    · rw [modifyHost_of_ne _ _ here]
      exact .refl _
  | invalid j type waits =>
    by_cases here : i = j
    · subst here
      exact absurd waits responded
    · rw [modifyHost_of_ne _ _ here]
      exact .refl _
  | left j type none found =>
    by_cases here : i = j
    · subst here
      have meant := (cancels_carries (TransferArray.search_some found)).2
      simp [answerOf, type, ← meant, named] at silent
    · rw [modifyHost_of_ne _ _ here]
      exact .refl _
  | replied j type pending meant =>
    by_cases here : i = j
    · subst here
      simp [answerOf, type, ← meant, named] at silent
    · rw [modifyHost_of_ne _ _ here]
      exact .refl _
  | _ => exact .refl _

theorem answerOf_some {p : Packet} {env : PacketEnv} {answer : ClientId × Bool}
    (answers : answerOf tId (.packet env p) = some answer) : p.tId = tId ∧
      (p.type? = some .transferReply ∧ answer = (p.hdrFrom, decide (p.replyAccept ≠ 0)) ∨
        p.type? = some .transferCancel ∧ answer = (p.hdrFrom, false)) := by
  by_cases named : p.tId = tId
  · refine ⟨named, ?_⟩
    simp only [answerOf, if_pos named] at answers
    split at answers
    · rename_i type
      exact .inl ⟨type, (Option.some.inj answers).symm⟩
    · rename_i type
      exact .inr ⟨type, (Option.some.inj answers).symm⟩
    · cases answers
  · simp only [answerOf, if_neg named] at answers
    cases answers

/-- A reply is entered if the slot waits for it. -/
theorem hostRequestReply_sole (sole : m.Sole i tId) (named : (m.hostTransfers i).hdr.tId = tId)
    (c : ClientId) (reply : Bool) : (m.hostRequestReply tId c reply).hostTransfers i =
      if (m.hostTransfers i).state = .pending then (m.hostTransfers i).setRequest c reply
      else m.hostTransfers i := by
  have others (j : Fin simTransfersMax) (apart : j ≠ i) :
      decide ((m.hostTransfers j).state = .pending ∧ (m.hostTransfers j).hdr.tId = tId) = false := by
    rw [decide_eq_false_iff_not]
    rintro ⟨pending, meant⟩
    exact sole.host j apart ⟨by simp [pending], meant⟩
  unfold hostRequestReply
  by_cases pending : (m.hostTransfers i).state = .pending
  · rw [search_unique (i := i) (by simp [pending, named]) others, if_pos pending]
    exact modifyHost_self ..
  · have none : m.hostTransfers.search (fun t => t.state = .pending ∧ t.hdr.tId = tId) =
        Option.none := search_absent fun j => by
        by_cases here : j = i
        · subst here
          simp [pending]
        · exact others j here
    rw [none, if_neg pending]

/-- A cancel is entered if the slot can be cancelled. -/
theorem recvCancel_sole (sole : m.Sole i tId) (named : (m.hostTransfers i).hdr.tId = tId)
    (hdr : TransferHdr) (meant : hdr.tId = tId) : (m.recvCancel hdr).hostTransfers i =
      if (m.hostTransfers i).canCancel then (m.hostTransfers i).setRequest hdr.sender false
      else m.hostTransfers i := by
  subst meant
  have received : m.recvTransfers.search (cancels hdr.tId) = none := by
    apply search_absent
    intro j
    by_contra found
    exact sole.recv j (cancels_carries (by simpa using found))
  have others (j : Fin simTransfersMax) (apart : j ≠ i) :
      cancels hdr.tId (m.hostTransfers j) = false := by
    by_contra found
    exact sole.host j apart (cancels_carries (by simpa using found))
  unfold recvCancel
  rw [received]
  dsimp only
  by_cases can : (m.hostTransfers i).canCancel = true
  · rw [search_unique (i := i) (by simp [cancels, can, named]) others, if_pos can]
    exact modifyHost_self ..
  · have none : m.hostTransfers.search (cancels hdr.tId) = Option.none := by
      apply search_absent
      intro j
      by_cases here : j = i
      · subst here
        simp [cancels, can]
      · exact others j here
    rw [none, if_neg can]

theorem PacketHandled.cmdQueue {env : PacketEnv} {p : Packet} (handled : PacketHandled m env p next) :
    next.cmdQueue = m.cmdQueue := by
  cases handled <;> rfl

theorem ActiveTransfer.Polled.responded {t : ActiveTransfer} {answers : Answers}
    (polled : t.Polled answers) : t.state ≠ .getResponse ∧ t.state ≠ .sendReq := by
  cases polled with
  | pending state => simp [state]
  | active state => simp [state]
  | cancel state => simp [state]

/-- A packet to a slot that is asking. -/
theorem Asking.packet {s : TransferManager × Answers} {env : PacketEnv} {p : Packet}
    (asking : Asking i tId s) (taken : s.1.handle env p = .ok next) :
    (next.hostTransfers i).Polled ((answerOf tId (.packet env p)).toList ++ s.2) ∧
      (s.1.hostTransfers i).Decided (next.hostTransfers i) s.2
        ((answerOf tId (.packet env p)).toList ++ s.2) := by
  obtain ⟨m, answers⟩ := s
  dsimp only at taken ⊢
  have polled : (m.hostTransfers i).Polled answers := asking.polled
  cases heard : answerOf tId (.packet env p) with
  | none =>
    have same := (handle_handled taken).same heard asking.named
      (ActiveTransfer.Polled.responded polled).1
    exact polled.kept same (.inl rfl)
  | some answer =>
    simp only [Option.toList_some, List.cons_append, List.nil_append]
    obtain ⟨named, ⟨type, rfl⟩ | ⟨type, rfl⟩⟩ := answerOf_some heard
    · simp only [handle, type, Except.ok.injEq] at taken
      subst taken
      rw [named, hostRequestReply_sole asking.sole asking.named]
      by_cases pending : (m.hostTransfers i).state = .pending
      · rw [if_pos pending]
        exact polled.answered_pending pending asking.distinct _ _
      · rw [if_neg pending]
        exact polled.kept (.refl _) (.inr ⟨pending, _, rfl⟩)
    · simp only [handle, type, Except.ok.injEq] at taken
      subst taken
      rw [recvCancel_sole asking.sole asking.named p.hdr named]
      cases polled with
      | pending state entered open' =>
        rw [if_pos (by simp [ActiveTransfer.canCancel, state])]
        exact asking.polled.answered_pending state asking.distinct _ _
      | active state =>
        rw [if_pos (by simp [ActiveTransfer.canCancel, state])]
        exact asking.polled.answered_active state _ _
      | cancel state =>
        rw [if_neg (by simp [ActiveTransfer.canCancel, state])]
        exact asking.polled.kept (.refl _) (.inr ⟨by simp [state], _, rfl⟩)

theorem Asking.step {s : TransferManager × Answers} (asking : Asking i tId s)
    (calm : undisturbed i tId s e) (taken : s.1.step e = .ok next) :
    Asking i tId (next, (answerOf tId e).toList ++ s.2) ∧
      (s.1.hostTransfers i).Decided (next.hostTransfers i) s.2 ((answerOf tId e).toList ++ s.2) := by
  have sole := calm.2 next taken
  obtain ⟨spared, polled, decided⟩ : (∀ cmd ∈ next.cmdQueue, spares tId cmd = true) ∧
      (next.hostTransfers i).Polled ((answerOf tId e).toList ++ s.2) ∧
      (s.1.hostTransfers i).Decided (next.hostTransfers i) s.2
        ((answerOf tId e).toList ++ s.2) := by
    cases e with
    | cmd cmd =>
      cases taken
      refine ⟨fun queued member => ?_, ?_⟩
      · unfold sendCmd at member
        split at member
        · rcases List.mem_append.mp member with before | last
          · exact asking.spared queued before
          · cases List.mem_singleton.mp last
            exact calm.1 cmd rfl
        · exact asking.spared queued member
      · rw [(sendCmd_slots s.1 cmd).2]
        exact asking.polled.kept (.refl _) (.inl rfl)
    | work env p =>
      have worked := step_worked taken
      refine ⟨fun queued member => ?_, ?_⟩
      · rw [worked.cmdQueue] at member
        cases member
      · have commanded := processCmds_same env asking.sole.held asking.named asking.spared
        have asked : ((s.1.processCmds env).hostTransfers i).state ≠ .sendReq := by
          rw [commanded.state]
          exact (ActiveTransfer.Polled.responded asking.polled).2
        exact asking.polled.kept (commanded.trans (worked.same sole.held asked)) (.inl rfl)
    | packet env p =>
      refine ⟨fun queued member => ?_, asking.packet taken⟩
      rw [(handle_handled taken).cmdQueue] at member
      exact asking.spared queued member
  refine ⟨⟨?_, ?_, polled, sole, spared⟩, decided⟩
  · rw [decided.hdr]
    exact asking.named
  · rw [ActiveTransfer.recipientList_congr decided.hdr]
    exact asking.distinct

/-- An answer concerns the slot that carries the id only. -/
theorem handle_answer {env : PacketEnv} {p : Packet} {answer : ClientId × Bool} (sole : m.Sole i tId)
    (heard : answerOf tId (.packet env p) = some answer) (taken : m.handle env p = .ok next) :
    next.recvTransfers = m.recvTransfers ∧
      ∀ j, j ≠ i → next.hostTransfers j = m.hostTransfers j := by
  obtain ⟨named, heard⟩ := answerOf_some heard
  have other {j : Fin simTransfersMax} (found : (m.hostTransfers j).carries tId) : j = i := by
    by_contra apart
    exact sole.host j apart found
  cases handle_handled taken with
  | ignored => exact ⟨rfl, fun _ _ => rfl⟩
  | left j type none found =>
    obtain rfl := other (named ▸ cancels_carries (TransferArray.search_some found))
    exact ⟨rfl, fun k apart => modifyHost_of_ne _ _ apart⟩
  | replied j type pending meant =>
    obtain rfl := other ⟨by simp [pending], meant.trans named⟩
    exact ⟨rfl, fun k apart => modifyHost_of_ne _ _ apart⟩
  | dropped j type found =>
    exact absurd (named ▸ cancels_carries (TransferArray.search_some found)) (sole.recv j)
  | requested j type => simp [type] at heard
  | valid j type => simp [type] at heard
  | invalid j type => simp [type] at heard
  | written j type => simp [type] at heard
  | completed j type => simp [type] at heard

theorem ActiveTransfer.Polled.held {t : ActiveTransfer} {answers : Answers}
    (polled : t.Polled answers) : t.state ≠ .empty := by
  cases polled with
  | pending state => simp [state]
  | active state => simp [state]
  | cancel state => simp [state]

theorem Asking.undisturbed {s : TransferManager × Answers} (asking : Asking i tId s)
    (answers : (answerOf tId e).isSome) : TransferManager.undisturbed i tId s e := by
  obtain ⟨answer, heard⟩ := Option.isSome_iff_exists.mp answers
  cases e with
  | cmd cmd => cases heard
  | work env p => cases heard
  | packet env p =>
    refine ⟨fun cmd same => absurd same (by simp), fun next taken => ?_⟩
    obtain ⟨recv, host⟩ := handle_answer asking.sole heard taken
    refine ⟨ActiveTransfer.Polled.held (asking.packet taken).1, fun j apart => ?_, fun j => ?_⟩
    · rw [host j apart]
      exact asking.sole.host j apart
    · rw [recv]
      exact asking.sole.recv j

/-- Nothing but answers leaves the slot to itself. -/
theorem Asking.calm {s : TransferManager × Answers} {events : List ManagerEvent}
    (asking : Asking i tId s) (answers : ∀ e ∈ events, (answerOf tId e).isSome) :
    Guarded (answerStep tId) (TransferManager.undisturbed i tId) s events := by
  have given : Guarded (answerStep tId) (fun _ e => (answerOf tId e).isSome) s events :=
    .of_events answers s
  apply given.transfer asking
  · intro s e t asking answers taken
    obtain ⟨next, stepped, done⟩ := bind_ok taken
    cases done
    exact (asking.step (asking.undisturbed answers) stepped).1
  · intro s e asking answers
    exact asking.undisturbed answers

theorem Asking.start (pending : (m.hostTransfers i).state = .pending)
    (named : (m.hostTransfers i).hdr.tId = tId) (blank : ∀ k, (m.hostTransfers i).acceptList k = .empty)
    (some : (m.hostTransfers i).recipientList ≠ []) (distinct : (m.hostTransfers i).recipientList.Nodup)
    (sole : m.Sole i tId) (spared : ∀ cmd ∈ m.cmdQueue, spares tId cmd = true) :
    Asking i tId (m, []) := by
  have entered : (m.hostTransfers i).Entered [] := fun k _ => blank k
  have open' : answeredAll (m.hostTransfers i).recipientList [] = false := by
    obtain ⟨r, rest, list⟩ := List.exists_cons_of_ne_nil some
    rw [list]
    rfl
  exact ⟨named, distinct, .pending pending entered open', sole, spared⟩

/-- A slot that a change makes PENDING is the one changed. -/
theorem modifyHost_pending {j : Fin simTransfersMax} {f : ActiveTransfer → ActiveTransfer}
    (before : (m.hostTransfers i).state ≠ .pending)
    (pending : ((m.modifyHost j f).hostTransfers i).state = .pending) :
    i = j ∧ (f (m.hostTransfers i)).state = .pending := by
  by_cases here : i = j
  · subst here
    rw [modifyHost_self] at pending
    exact ⟨rfl, pending⟩
  · rw [modifyHost_of_ne _ _ here] at pending
    exact absurd pending before

theorem HostCommanded.not_pending {t u : ActiveTransfer} (done : HostCommanded t u)
    (before : t.state ≠ .pending) : u.state ≠ .pending := by
  cases done with
  | kept => exact before
  | refused => exact before
  | requested => nofun
  | cancelled => nofun

/-- Working never makes a slot PENDING. -/
theorem Worked.not_pending {env : WorkEnv} {p : Packet} {emitted : Option (Slot × Packet)}
    (worked : Worked m env p emitted next) (before : (m.hostTransfers i).state ≠ .pending) :
    (next.hostTransfers i).state ≠ .pending := by
  intro pending
  cases worked with
  | nothing => exact before pending
  | request j => cases (modifyHost_pending before pending).2
  | cancelHost j => cases (modifyHost_pending before pending).2
  | data j => exact before (modifyHost_pending before pending).2
  | complete j => cases (modifyHost_pending before pending).2
  | failed j => cases (modifyHost_pending before pending).2
  | cancelRecv j => exact before pending
  | accept j => exact before pending
  | deny j => exact before pending

/-- Only a VALID makes a slot PENDING, and it leaves the accept list alone. -/
theorem step_pending (taken : m.step e = .ok next) (before : (m.hostTransfers i).state ≠ .pending)
    (pending : (next.hostTransfers i).state = .pending) :
    (m.hostTransfers i).state = .getResponse ∧
      (next.hostTransfers i).acceptList = (m.hostTransfers i).acceptList := by
  cases e with
  | cmd cmd =>
    cases taken
    rw [(sendCmd_slots m cmd).2] at pending
    exact absurd pending before
  | work env p =>
    have still := (processCmds_host m env i).not_pending before
    exact absurd pending ((step_worked taken).not_pending still)
  | packet env p =>
    have replied {c : ClientId} {reply : Bool}
        (set : ((m.hostTransfers i).setRequest c reply).state = .pending) : False := by
      rcases (m.hostTransfers i).setRequest_state c reply with cancel | active | same
      · cases cancel.symm.trans set
      · cases active.symm.trans set
      · exact before (same.symm.trans set)
    cases handle_handled taken with
    | ignored => exact absurd pending before
    | valid j type waits =>
      obtain ⟨rfl, -⟩ := modifyHost_pending before pending
      exact ⟨waits, by rw [modifyHost_self]⟩
    | invalid j => cases (modifyHost_pending before pending).2
    | left j => exact absurd (modifyHost_pending before pending).2 replied
    | replied j => exact absurd (modifyHost_pending before pending).2 replied
    | requested j => exact absurd pending before
    | dropped j => exact absurd pending before
    | written j => exact absurd pending before
    | completed j => exact absurd pending before

/-- A slot that becomes PENDING has no answer entered. -/
theorem Following.blank {s : TransferManager × Traces} (following : Following s)
    (taken : s.1.step e = .ok next) (before : (s.1.hostTransfers i).state ≠ .pending)
    (pending : (next.hostTransfers i).state = .pending) (k : Fin transferClientsMax) :
    (next.hostTransfers i).acceptList k = .empty := by
  obtain ⟨asked, same⟩ := step_pending taken before pending
  rw [same]
  cases following i with
  | getResponse _ _ fresh => exact fresh.acceptList k
  | empty state => cases state.symm.trans asked
  | sendReq state => cases state.symm.trans asked
  | pending state => cases state.symm.trans asked
  | active state => cases state.symm.trans asked
  | cancel state => cases state.symm.trans asked

/-- Some trace of what happened goes with the state. -/
def Followed (m : TransferManager) : Prop := ∃ traces, Following (m, traces)

theorem reached_followed {events : List ManagerEvent} (named : ∀ e ∈ events, cancelNamed e)
    (reached : run step .init events = .ok m) : m.Followed := by
  have given : Guarded step (fun _ => cancelNamed) .init events := .of_events named _
  have start : init.Followed := ⟨_, following_init⟩
  refine given.invariant start ?_ reached
  rintro m e next ⟨traces, following⟩ named taken
  refine ⟨traced m e next traces, following.step named ?_⟩
  rw [traceStep, taken]
  rfl

/-- An asking slot that is left alone does what its answers decide. -/
theorem Asking.decides {events : List ManagerEvent} {s : TransferManager × Answers}
    (asking : Asking i tId s)
    (calm : Guarded (answerStep tId) (TransferManager.undisturbed i tId) s events) :
    Guarded (answerStep tId) (TransferManager.decides i tId) s events := by
  apply calm.transfer asking
  · intro s e t asking calm taken
    obtain ⟨next, stepped, done⟩ := bind_ok taken
    cases done
    exact (asking.step calm stepped).1
  · intro s e asking calm next taken
    exact (asking.step calm taken).2

/-- In every run whose cancels name a transfer, a host slot that becomes PENDING and is
then left alone by its user waits for every recipient, then is ACTIVE if the last answer
of one is to accept and CANCEL if not, and once ACTIVE becomes CANCEL exactly when every
entry is DENY, whatever else the client does meanwhile. -/
theorem answers_decide (before events : List ManagerEvent) (e : ManagerEvent)
    (i : Fin simTransfersMax) (tId : TransferId) (reached : run step .init before = .ok m)
    (cancels : ∀ e ∈ before, cancelNamed e) (taken : m.step e = .ok next)
    (other : (m.hostTransfers i).state ≠ .pending)
    (pending : (next.hostTransfers i).state = .pending)
    (named : (next.hostTransfers i).hdr.tId = tId)
    (some : (next.hostTransfers i).recipientList ≠ [])
    (distinct : (next.hostTransfers i).recipientList.Nodup)
    (sole : next.Sole i tId) (spared : ∀ cmd ∈ next.cmdQueue, spares tId cmd = true)
    (calm : Guarded (answerStep tId) (undisturbed i tId) (next, []) events) :
    Guarded (answerStep tId) (decides i tId) (next, []) events := by
  obtain ⟨traces, following⟩ := reached_followed cancels reached
  have blank := following.blank taken other pending
  exact (Asking.start pending named blank some distinct sole spared).decides calm

end TransferManager

/-- The server confirms the first request as transfer 7, to 101 and 102. -/
def pairValid : Packet := (fileValid 1 7).storeInt64 32 102

/-- A file is asked for, and the request sent. -/
def pairAsks : List ManagerEvent := [.cmd fileRequest, .work .oneByte (Mem.zero packetMaxSize)]

/-- 101 accepts, 102 refuses, and 101 leaves. -/
def pairAnswers : List ManagerEvent :=
  [.packet .opening (acceptedBy 7 101), .packet .opening (cancelledBy 7 102),
    .packet .opening (cancelledBy 7 101)]

/-- The first slot asks 101 and 102 alone, and the answers make it ACTIVE and then CANCEL. -/
def pairChecked (m next : TransferManager) : Bool :=
  (m.hostTransfers 0).state ≠ .pending ∧ (next.hostTransfers 0).state = .pending ∧
    (next.hostTransfers 0).hdr.tId = 7 ∧ (next.hostTransfers 0).recipientList = [101, 102] ∧
    next.Sole 0 7 ∧ next.cmdQueue = [] ∧
    (run TransferManager.step next (pairAnswers.take 2)).map (fun m => (m.hostTransfers 0).state) =
      .ok .active ∧
    (run TransferManager.step next pairAnswers).map (fun m => (m.hostTransfers 0).state) =
      .ok .cancel

/-- A slot that becomes PENDING in a run, with three answers to it. -/
theorem answers_decide_pair : ∃ m next,
    run TransferManager.step .init pairAsks = .ok m ∧
    m.step (.packet .opening pairValid) = .ok next ∧
    (run TransferManager.step next (pairAnswers.take 2)).map (fun m => (m.hostTransfers 0).state) =
      .ok .active ∧
    (run TransferManager.step next pairAnswers).map (fun m => (m.hostTransfers 0).state) =
      .ok .cancel ∧
    Guarded (TransferManager.answerStep 7) (TransferManager.decides 0 7) (next, [])
      pairAnswers := by
  have checked : ((run TransferManager.step .init pairAsks) >>= fun m =>
      m.step (.packet .opening pairValid) >>= fun next =>
        (.ok (pairChecked m next) : Except Abort Bool)) = .ok true := by
    decide +kernel
  obtain ⟨m, reached, later⟩ := bind_ok checked
  obtain ⟨next, taken, passed⟩ := bind_ok later
  obtain ⟨other, pending, named, list, sole, idle, active, cancel⟩ := by
    simpa [pairChecked] using Except.ok.inj passed
  have cancels : ∀ e ∈ pairAsks, TransferManager.cancelNamed e := by decide
  have some : (next.hostTransfers 0).recipientList ≠ [] := by simp [list]
  have distinct : (next.hostTransfers 0).recipientList.Nodup := by
    rw [list]
    decide
  have spared : ∀ cmd ∈ next.cmdQueue, TransferManager.spares 7 cmd = true := by simp [idle]
  have answers : ∀ e ∈ pairAnswers, (answerOf 7 e).isSome := by decide +kernel
  obtain ⟨traces, following⟩ := TransferManager.reached_followed cancels reached
  have asking := TransferManager.Asking.start pending named (following.blank taken other pending)
    some distinct sole spared
  exact ⟨m, next, reached, taken, active, cancel,
    TransferManager.answers_decide pairAsks pairAnswers _ 0 7 reached cancels taken other pending
      named some distinct sole spared (asking.calm answers)⟩

end Quickshare
