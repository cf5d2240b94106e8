import Quickshare.Client.Moves

/-! Requests of the server. A request takes a receive slot and opens its file at
once: `create_recv_request` does both, and `analize` asserts that it could. So
the user has no say in the file, and a request that finds no slot stops the
client. -/

namespace Quickshare

open Runs Bytes

namespace TransferManager

variable {m next : TransferManager} {env : PacketEnv} {p : Packet} {i j : Fin simTransfersMax}

/-- A slot is free, the name ends within the packet, and `fopen` succeeds. -/
def opensFile (m : TransferManager) (env : PacketEnv) (p : Packet) : Prop :=
  (∃ i, (m.recvTransfers i).state = .empty) ∧ requestFileName p ≠ none ∧
    env.target.user ≠ none ∧ env.target.opened = true

/-- The request is processed, and changes nothing but one free receive slot. -/
def requestProcessed (m : TransferManager) (env : PacketEnv) (p : Packet) : Prop :=
  ∃ next, m.handle env p = .ok next ∧ next.hostTransfers = m.hostTransfers ∧
    ∃ i, (m.recvTransfers i).state = .empty ∧
      ∀ j, j ≠ i → next.recvTransfers j = m.recvTransfers j

theorem handle_request (type : p.type? = some .transferRequest) :
    m.handle env p = (m.createRecvRequest p env.target).bind fun r =>
      if r.1 then .ok r.2 else .error .request := by
  simp only [handle, type]
  rfl

/-- A file that can be opened is truncated at once. -/
theorem writeFile_opens (f : FileManager) (name : List UInt8) (size : Nat) {target : WriteTarget}
    {user : List UInt8} (named : target.user = some user) (opened : target.opened = true) :
    ∃ g, f.writeFile name size target = (true, g) ∧
      g.acts = f.acts ++ [.open .writeFile (FileManager.downloadPath user name)] := by
  refine ⟨_, by simp only [FileManager.writeFile, named, opened, if_true]; rfl, rfl⟩

/-- The slot a request takes and what becomes of it. -/
theorem createRecvRequest_opens (opens : m.opensFile env p) : ∃ i name user f,
    (m.recvTransfers i).state = .empty ∧ requestFileName p = some name ∧
      env.target.user = some user ∧
      f.acts = (m.recvTransfers i).fManager.acts ++
        [.open .writeFile (FileManager.downloadPath user name)] ∧
      m.createRecvRequest p env.target = .ok (true, m.modifyRecv i fun t => { t with
        fManager := f
        hdr := p.hdr
        file := name
        state := .getResponse }) := by
  obtain ⟨⟨free, idle⟩, ended, named, opened⟩ := opens
  obtain ⟨name, ended⟩ := Option.ne_none_iff_exists'.mp ended
  obtain ⟨user, named⟩ := Option.ne_none_iff_exists'.mp named
  cases found : getTransfer m.recvTransfers with
  | none =>
    have absent := TransferArray.search_none found free
    simp [idle] at absent
  | some i =>
    have here : (m.recvTransfers i).state = .empty := by
      simpa using TransferArray.search_some found
    obtain ⟨f, wrote, acts⟩ := writeFile_opens (m.recvTransfers i).fManager name p.fileSize named opened
    refine ⟨i, name, user, f, here, ended, named, acts, ?_⟩
    simp only [createRecvRequest, found, ended, wrote, if_true]

/-- Without a slot, a name or a file the request is not accepted. -/
theorem createRecvRequest_not_opens (fails : ¬ m.opensFile env p) :
    ∀ next, m.createRecvRequest p env.target ≠ .ok (true, next) := by
  intro next done
  unfold createRecvRequest at done
  split at done
  · cases done
  · split at done <;> cases done
  · rename_i i name found ended
    have idle : (m.recvTransfers i).state = .empty := by
      simpa using TransferArray.search_some found
    apply fails
    refine ⟨⟨i, idle⟩, by simp [ended], ?_⟩
    simp only [FileManager.writeFile] at done
    cases named : env.target.user with
    | none => simp [named] at done
    | some user =>
      refine ⟨by simp, ?_⟩
      cases opened : env.target.opened with
      | true => rfl
      | false => simp [named, opened] at done

/-- Processing a request and accepting it are the same. -/
theorem handle_request_ok (type : p.type? = some .transferRequest) :
    m.handle env p = .ok next ↔ m.createRecvRequest p env.target = .ok (true, next) := by
  rw [handle_request type]
  cases m.createRecvRequest p env.target with
  | error fault => simp [Except.bind]
  | ok r =>
    obtain ⟨created, k⟩ := r
    cases created <;> simp [Except.bind]

/-- A request is processed without a failing assertion exactly if a receive slot
is free, the name ends within the packet and the file can be opened. -/
theorem requestProcessed_iff (m : TransferManager) (env : PacketEnv) (p : Packet)
    (type : p.type? = some .transferRequest) : m.requestProcessed env p ↔ m.opensFile env p := by
  constructor
  · rintro ⟨next, handled, -⟩
    by_contra fails
    exact createRecvRequest_not_opens fails next ((handle_request_ok type).mp handled)
  · intro opens
    obtain ⟨i, name, user, f, idle, -, -, -, made⟩ := createRecvRequest_opens opens
    refine ⟨_, (handle_request_ok type).mpr made, rfl, i, idle, ?_⟩
    intro j other
    exact m.modifyRecv_of_ne _ other

/-! Consent -/

/-- The files created, truncated or written for slot `i` by a step to `next`. -/
def fileEffects (m next : TransferManager) (i : Fin simTransfersMax) : List FileAct :=
  ((next.recvTransfers i).fManager.acts.drop (m.recvTransfers i).fManager.acts.length).filter
    (· ≠ .close)

/-- For every receive slot whether the user accepted the request it holds. -/
abbrev Consents := Fin simTransfersMax → Bool

/-- A request that takes a slot has not been answered; the answer counts when
`process_cmds` has run the command. -/
def agreed (m : TransferManager) (e : ManagerEvent) (next : TransferManager) (yes : Consents) :
    Consents := fun i =>
  match e with
  | .cmd _ => yes i
  | .work env _ => yes i || ((m.recvTransfers i).state = .getResponse ∧
      ((m.processCmds env).recvTransfers i).state = .accept : Bool)
  | .packet _ _ => yes i && !((m.recvTransfers i).state = .empty ∧
      (next.recvTransfers i).state ≠ .empty : Bool)

/-- One event, with the answers of the user. -/
def consentStep (s : TransferManager × Consents) (e : ManagerEvent) :
    Except Abort (TransferManager × Consents) := do
  let next ← s.1.step e
  return (next, agreed s.1 e next s.2)

/-- The step touches files of accepted requests only. -/
def consented (s : TransferManager × Consents) (e : ManagerEvent) : Prop :=
  ∀ t, consentStep s e = .ok t → ∀ i, fileEffects s.1 t.1 i ≠ [] → t.2 i = true

/-- The event is a request a file is opened for. -/
def opensRequest (m : TransferManager) : ManagerEvent → Prop
  | .packet env p => p.type? = some .transferRequest ∧ m.opensFile env p
  | _ => False

/-- Slots that answer yes, or did, hold accepted requests. -/
def Consenting (s : TransferManager × Consents) : Prop :=
  ∀ i, (s.1.recvTransfers i).state = .accept ∨ (s.1.recvTransfers i).state = .active → s.2 i = true

theorem fileEffects_same (same : (next.recvTransfers i).fManager = (m.recvTransfers i).fManager) :
    fileEffects m next i = [] := by
  rw [fileEffects, same, List.drop_length]
  rfl

/-- `do_work` leaves the files of the receive slots alone. -/
theorem RecvCommanded.fManager {t u : ActiveTransfer} (done : RecvCommanded t u) :
    u.fManager = t.fManager := by
  cases done <;> rfl

theorem RecvWorked.fManager {q packet : Packet} {work : WorkState}
    (worked : RecvWorked m q work packet next) (i : Fin simTransfersMax) :
    (next.recvTransfers i).fManager = (m.recvTransfers i).fManager := by
  have kept (j : Fin simTransfersMax) (f : ActiveTransfer → ActiveTransfer)
      (blind : ∀ t, (f t).fManager = t.fManager) :
      ((m.modifyRecv j f).recvTransfers i).fManager = (m.recvTransfers i).fManager := by
    by_cases here : i = j
    · subst here
      rw [modifyRecv_self, blind]
    · rw [modifyRecv_of_ne _ _ here]
  cases worked with
  | idle => rfl
  | cancel j => exact kept j _ fun _ => rfl
  | accept j => exact kept j _ fun _ => rfl
  | deny j => exact kept j _ fun _ => rfl

theorem doWork_fManager {env : WorkEnv} {q packet : Packet} {work : WorkState}
    (done : m.doWork env q = .ok (work, packet, next)) (i : Fin simTransfersMax) :
    (next.recvTransfers i).fManager = (m.recvTransfers i).fManager := by
  rw [← (processCmds_recv m env i).fManager]
  rcases doWork_worked done with ⟨worked, -⟩ | ⟨-, worked⟩
  · rw [worked.recv]
  · exact worked.fManager i

/-- Only a slot that is to answer yes becomes active. -/
theorem RecvWorked.agreeing {q packet : Packet} {work : WorkState}
    (worked : RecvWorked m q work packet next)
    (agrees : (next.recvTransfers i).state = .accept ∨ (next.recvTransfers i).state = .active) :
    (m.recvTransfers i).state = .accept ∨ (m.recvTransfers i).state = .active := by
  cases worked with
  | idle => exact agrees
  | cancel j =>
    by_cases here : i = j
    · subst here
      simp [pushBacklog, modifyRecv_self, ActiveTransfer.zeroed] at agrees
    · simpa [pushBacklog, modifyRecv_of_ne _ _ here] using agrees
  | accept j found accepted =>
    by_cases here : i = j
    · subst here
      exact .inl accepted
    · simpa [modifyRecv_of_ne _ _ here] using agrees
  | deny j =>
    by_cases here : i = j
    · subst here
      simp [pushBacklog, modifyRecv_self, ActiveTransfer.zeroed] at agrees
    · simpa [pushBacklog, modifyRecv_of_ne _ _ here] using agrees

theorem doWork_agreeing {env : WorkEnv} {q packet : Packet} {work : WorkState}
    (done : m.doWork env q = .ok (work, packet, next))
    (agrees : (next.recvTransfers i).state = .accept ∨ (next.recvTransfers i).state = .active) :
    ((m.processCmds env).recvTransfers i).state = .accept ∨
      ((m.processCmds env).recvTransfers i).state = .active := by
  rcases doWork_worked done with ⟨worked, -⟩ | ⟨-, worked⟩
  · rwa [worked.recv] at agrees
  · exact worked.agreeing agrees

/-- A packet makes no slot answer yes. -/
theorem PacketHandled.agreeing (handled : PacketHandled m env p next)
    (agrees : (next.recvTransfers i).state = .accept ∨ (next.recvTransfers i).state = .active) :
    (m.recvTransfers i).state = (next.recvTransfers i).state := by
  cases handled with
  | requested j =>
    by_cases here : i = j
    · subst here
      simp [modifyRecv_self] at agrees
    · rw [modifyRecv_of_ne _ _ here]
  | dropped j =>
    by_cases here : i = j
    · subst here
      simp [pushBacklog, modifyRecv_self, ActiveTransfer.zeroed] at agrees
    · simp [pushBacklog, modifyRecv_of_ne _ _ here]
  | written j =>
    by_cases here : i = j
    · subst here
      simp [modifyRecv_self]
    · rw [modifyRecv_of_ne _ _ here]
  | completed j =>
    by_cases here : i = j
    · subst here
      simp [pushBacklog, modifyRecv_self, ActiveTransfer.zeroed] at agrees
    · simp [pushBacklog, modifyRecv_of_ne _ _ here]
  | _ => rfl

theorem Consenting.step {s t : TransferManager × Consents} {e : ManagerEvent}
    (consenting : Consenting s) (taken : consentStep s e = .ok t) : Consenting t := by
  obtain ⟨next, stepped, done⟩ := bind_ok taken
  cases done
  intro i agrees
  dsimp only at agrees ⊢
  cases e with
  | cmd cmd =>
    cases stepped
    rw [(sendCmd_slots s.1 cmd).1] at agrees
    exact consenting i agrees
  | work env q =>
    obtain ⟨work, packet, done⟩ := step_work stepped
    have answered := doWork_agreeing done agrees
    have commanded := processCmds_recv s.1 env i
    simp only [agreed, Bool.or_eq_true, decide_eq_true_eq]
    generalize (s.1.processCmds env).recvTransfers i = u at answered commanded ⊢
    cases commanded with
    | kept => exact .inl (consenting i answered)
    | replied asked reply =>
      cases reply with
      | true => exact .inr ⟨asked, rfl⟩
      | false => simp at answered
    | cancelled => simp at answered
  | packet env p =>
    have same := (handle_handled stepped).agreeing agrees
    have before : s.2 i = true := consenting i (same ▸ agrees)
    have busy : (s.1.recvTransfers i).state ≠ .empty := by
      rw [same]
      rcases agrees with accept | active <;> simp [*]
    simp [agreed, before, busy]

/-- A packet that is no request it opens a file for writes to accepted files only. -/
theorem consented_of_not_opens {s : TransferManager × Consents} {e : ManagerEvent}
    (consenting : Consenting s) (closed : ¬ s.1.opensRequest e) : consented s e := by
  intro t taken i touched
  have after := consenting.step taken
  obtain ⟨next, stepped, done⟩ := bind_ok taken
  cases done
  dsimp only at touched ⊢
  cases e with
  | cmd cmd =>
    cases stepped
    refine absurd (fileEffects_same ?_) touched
    rw [(sendCmd_slots s.1 cmd).1]
  | work env q =>
    obtain ⟨work, packet, done⟩ := step_work stepped
    exact absurd (fileEffects_same (doWork_fManager done i)) touched
  | packet env p =>
    cases handle_handled stepped with
    | requested j type =>
      refine absurd ⟨type, ?_⟩ closed
      by_contra fails
      exact createRecvRequest_not_opens fails _ ((handle_request_ok type).mp stepped)
    | written j type active =>
      by_cases here : i = j
      · subst here
        refine after i (.inr ?_)
        rw [modifyRecv_self]
        exact active
      · exact absurd (fileEffects_same (by rw [modifyRecv_of_ne _ _ here])) touched
    | dropped j =>
      refine absurd (fileEffects_same ?_) touched
      by_cases here : i = j
      · subst here
        simp [pushBacklog, modifyRecv_self, ActiveTransfer.zeroed]
      · simp [pushBacklog, modifyRecv_of_ne _ _ here]
    | completed j =>
      by_cases here : i = j
      · subst here
        simp [fileEffects, pushBacklog, modifyRecv_self, ActiveTransfer.zeroed,
          FileManager.close] at touched
      · refine absurd (fileEffects_same ?_) touched
        simp [pushBacklog, modifyRecv_of_ne _ _ here]
    | _ => exact absurd (fileEffects_same rfl) touched

/-- Opening a file for a request is not preceded by any answer. -/
theorem not_consented_of_opens {s : TransferManager × Consents} {e : ManagerEvent}
    (opens : s.1.opensRequest e) : ¬ consented s e := by
  cases e with
  | packet env p =>
    obtain ⟨type, opens⟩ := opens
    obtain ⟨i, name, user, f, idle, -, -, acts, made⟩ := createRecvRequest_opens opens
    intro all
    have handled := (handle_request_ok type).mpr made
    generalize equal : s.1.modifyRecv i _ = next at handled
    have slot : next.recvTransfers i = { s.1.recvTransfers i with
        fManager := f
        hdr := p.hdr
        file := name
        state := .getResponse } := by
      rw [← equal, modifyRecv_self]
    have taken : consentStep s (.packet env p) = .ok (next, agreed s.1 (.packet env p) next s.2) := by
      simp only [consentStep, step, handled]
      rfl
    have touched : fileEffects s.1 next i ≠ [] := by
      simp [fileEffects, slot, acts]
    have answer := all _ taken i touched
    simp [agreed, idle, slot] at answer
  | cmd cmd => exact opens.elim
  | work env q => exact opens.elim

theorem consented_iff {s : TransferManager × Consents} {e : ManagerEvent}
    (consenting : Consenting s) : consented s e ↔ ¬ s.1.opensRequest e := by
  constructor
  · intro all opens
    exact not_consented_of_opens opens all
  · exact consented_of_not_opens consenting

/-- Along every run no file is created, truncated or written before the user
accepts exactly if no request finds a slot and a file that can be opened. -/
theorem consent_iff (events : List ManagerEvent) :
    Guarded consentStep consented (.init, fun _ => false) events ↔
      Guarded consentStep (fun s e => ¬ s.1.opensRequest e) (.init, fun _ => false) events := by
  have start : Consenting (.init, fun _ => false) := by
    intro i agrees
    simp [init, ActiveTransfer.init] at agrees
  apply guarded_iff_guarded start
  · intro s e t consenting _ taken
    exact consenting.step taken
  · intro s e consenting
    exact consented_iff consenting

end TransferManager

/-- A request for the file `a`, as transfer 1. -/
def fileOffer : Packet :=
  ((Packet.packetHdr .transferRequest requestSize (Mem.zero packetMaxSize)).storeInt64 8 1).write 80
    (ascii "a")

/-- A cancel of transfer 1. -/
def offerCancel : Packet :=
  (Packet.packetHdr .transferCancel transferStateSize (Mem.zero packetMaxSize)).storeInt64 8 1

/-- Files can be opened for writing. -/
def PacketEnv.opening : PacketEnv := ⟨⟨.some (ascii "u"), true⟩, .none⟩

/-- No file can be opened for writing. -/
def PacketEnv.refusing : PacketEnv := ⟨⟨.some (ascii "u"), false⟩, .none⟩

/-- The request is processed if its file can be opened, and is not if it cannot. -/
theorem requestProcessed_iff_offer : fileOffer.type? = some .transferRequest ∧
    TransferManager.init.requestProcessed .opening fileOffer ∧
    ¬ TransferManager.init.requestProcessed .refusing fileOffer := by
  have type : fileOffer.type? = some .transferRequest := by decide +kernel
  have opens : TransferManager.init.opensFile .opening fileOffer := by
    refine ⟨⟨0, rfl⟩, ?_, by decide, rfl⟩
    decide +kernel
  refine ⟨type, (TransferManager.init.requestProcessed_iff .opening fileOffer type).mpr opens, ?_⟩
  intro processed
  have opened := (TransferManager.init.requestProcessed_iff .refusing fileOffer type).mp processed
  cases opened.2.2.2

/-- The seventh request in a row stops the client. -/
theorem request_stops_client : ¬ ∀ events m, run TransferManager.step .init events = .ok m →
    ∀ env p, p.type? = some .transferRequest → m.requestProcessed env p := by
  intro all
  let events := List.replicate 6 (ManagerEvent.packet .opening fileOffer)
  have taken : ((run TransferManager.step .init events).toOption.any fun m =>
      ∀ i, (m.recvTransfers i).state ≠ .empty) = true := by decide +kernel
  cases ended : run TransferManager.step .init events with
  | error fault => simp [ended, Except.toOption] at taken
  | ok m =>
    simp only [ended, Except.toOption, Option.any_some, decide_eq_true_eq] at taken
    have type : fileOffer.type? = some .transferRequest := by decide +kernel
    obtain ⟨⟨i, idle⟩, -⟩ :=
      (m.requestProcessed_iff .opening fileOffer type).mp (all events m ended .opening fileOffer type)
    exact taken i idle

/-- The first request opens its file. -/
theorem consent_fails : ¬ ∀ events : List ManagerEvent, Guarded TransferManager.consentStep
    TransferManager.consented (.init, fun _ => false) events := by
  intro all
  have opens : TransferManager.opensRequest .init (.packet .opening fileOffer) := by
    refine ⟨by decide +kernel, ⟨0, rfl⟩, ?_, by decide, rfl⟩
    decide +kernel
  exact TransferManager.not_consented_of_opens opens (all [.packet .opening fileOffer]).1

end Quickshare
