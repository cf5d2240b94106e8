import Quickshare.Client.Answers
import Quickshare.System.Clients

/-! What a packet that arrives at a client does to its side of every transfer. -/

namespace Quickshare

open Bytes Runs Relay

namespace ActiveTransfer

variable {a : ActiveTransfer} {t : TransferId} {c : ClientId} {reply : Bool}

/-- An answer to `set_request` is one its sender is no longer waited for. -/
theorem setRequest_hears (a : ActiveTransfer) (c : ClientId) (reply : Bool) :
    (a.setRequest c reply).state = .cancel ∨
      ((a.setRequest c reply).state = .active ∨ (a.setRequest c reply).state = a.state) ∧
      (a.setRequest c reply).hdr = a.hdr ∧ (a.setRequest c reply).fManager = a.fManager ∧
      (∀ other, other ≠ c → (a.setRequest c reply).awaits other = a.awaits other) ∧
      ((a.setRequest c reply).state = .active →
        a.state = .active ∨ ∀ other, (a.setRequest c reply).awaits other = false) := by
  have file : (a.answered c reply).fManager = a.fManager := by
    unfold answered
    split <;> rfl
  have others {other : ClientId} (apart : other ≠ c) :
      (a.answered c reply).awaits other = a.awaits other := by
    have entries (i : Fin transferClientsMax) (named : a.hdr.recipients i = other) :
        (a.answered c reply).acceptList i = a.acceptList i := by
      unfold answered
      split
      · rfl
      · rename_i k found
        have here : a.hdr.recipients k = c := by simpa using List.find?_some found
        exact Function.update_of_ne (fun same => apart (by rw [← named, same, here])) _ _
    unfold awaits
    rw [show (a.answered c reply).listed = a.listed from listed_congr (answered_hdr a c reply),
      answered_hdr]
    refine congrArg a.listed.any (funext fun i => ?_)
    by_cases named : a.hdr.recipients i = other
    · rw [entries i named]
    · simp [named]
  rcases setRequest_cases a c reply with ⟨-, same⟩ | ⟨-, full, same⟩ | ⟨-, -, same⟩
  · exact .inl (by rw [same])
  · refine .inr ⟨.inl (by rw [same]), by rw [same, answered_hdr], by rw [same, file],
      fun other apart => ?_, fun _ => .inr fun other => ?_⟩
    · rw [← others apart, same]
      rfl
    · rw [same]
      refine List.any_eq_false.mpr fun i member => ?_
      have entry := full i ((listed_congr (answered_hdr a c reply)) ▸ member)
      simp [entry]
  · refine .inr ⟨.inr (by rw [same, answered_state]), by rw [same, answered_hdr], by rw [same, file],
      fun other apart => ?_, fun active => .inl ?_⟩
    · rw [same, others apart]
    · rw [← answered_state a c reply, ← same]
      exact active

theorem takeWhile_range (f : Nat → ClientId) (n : Nat) :
    ((List.range n).map f).takeWhile (· ≠ 0) =
      ((List.finRange n).takeWhile fun i : Fin n => f i ≠ 0).map fun i : Fin n => f i := by
  rw [← List.map_coe_finRange_eq_range, List.map_map, List.takeWhile_map]
  rfl

/-- A slot that is granted its request waits for all that the grant names. -/
theorem granted_awaits (fresh : a.Fresh) (p : Packet) :
    ({ a with hdr := p.hdr, state := .pending } : ActiveTransfer).awaits =
      fun id => decide (id ∈ p.named) := by
  funext id
  have waits : ({ a with hdr := p.hdr, state := .pending } : ActiveTransfer).awaits id =
      ((List.finRange transferClientsMax).takeWhile fun i : Fin transferClientsMax =>
        p.hdrTo i ≠ 0).any fun i : Fin transferClientsMax =>
          p.hdrTo i = id ∧ a.acceptList i = .empty := rfl
  rw [waits, Packet.named, requestIds, takeWhile_range, Bool.eq_iff_iff]
  simp [fresh.acceptList]

end ActiveTransfer

open ActiveTransfer

namespace TransferManager

variable {m k next : TransferManager} {env : PacketEnv} {i : Fin simTransfersMax}
variable {t : TransferId} {source given : List UInt8} {up rest : List Parcel} {p : Packet}

/-- The file a client is offered, if `p` offers one. -/
def offer (p : Packet) (given : List UInt8) (t : TransferId) (source : List UInt8) : List UInt8 :=
  if p.type? = some .transferRequest ∧ p.tId = t then given else source

/-- `next` is reached from `m` by the arrival of `p`. -/
structure Takes (m : TransferManager) (p : Packet) (given : List UInt8) (next : TransferManager) :
    Prop where
  orderly : next.Orderly
  matched : ∀ l source, m.Matches l source → next.Matches l source
  turns : ∀ t ≠ 0, ∀ source up rest, ClientSteps (m.side t source up (⟨p, given⟩ :: rest))
    (next.side t (offer p given t source) up rest)

/-- What is seen of a packet that arrives. -/
theorem side_takes {view : Down ClientId UInt8} (seen : Parcel.downView t ⟨p, given⟩ = some view) :
    (m.side t source up (⟨p, given⟩ :: rest)).down = view :: (m.side t source up rest).down := by
  simp [side, seen]

theorem side_passes (unseen : Parcel.downView t ⟨p, given⟩ = none) :
    m.side t source up (⟨p, given⟩ :: rest) = m.side t source up rest := by
  simp [side, unseen]

/-- A packet without a part of the file may be passed over. -/
theorem turns_skip (quiet : ∀ view, Parcel.downView t ⟨p, given⟩ = some view → view.carries = false) :
    ClientSteps (m.side t source up (⟨p, given⟩ :: rest)) (m.side t source up rest) := by
  cases seen : Parcel.downView t ⟨p, given⟩ with
  | none => rw [side_passes seen]
  | some view =>
    have skip : ClientStep (m.side t source up (⟨p, given⟩ :: rest))
        { m.side t source up (⟨p, given⟩ :: rest) with down := (m.side t source up rest).down } :=
      .skips (side_takes seen) fun carries => by simp [quiet view seen] at carries
    exact .single skip

/-- A packet that carries no part of a file takes at most transfers away. -/
theorem Lapses.takes (lapses : Lapses m next) (other : p.type? ≠ some .transferRequest)
    (quiet : ∀ t view, Parcel.downView t ⟨p, given⟩ = some view → view.carries = false) :
    Takes m p given next where
  orderly := lapses.orderly
  matched := lapses.matched
  turns t known source up rest := by
    rw [offer, if_neg fun both => other both.1]
    exact (lapses.turns t known source up (⟨p, given⟩ :: rest)).trans (turns_skip (quiet t))

theorem Takes.pushBacklog (takes : Takes m p given next) (state : InfoState) (file : List UInt8) :
    Takes m p given (next.pushBacklog state file) :=
  ⟨takes.orderly.pushBacklog state file,
    fun l source matched => (takes.matched l source matched).pushBacklog state file, takes.turns⟩

/-- A free slot takes the transfer that is offered. -/
theorem request_takes {name : List UInt8} {f : FileManager} (orderly : m.Orderly)
    (type : p.type? = some .transferRequest) (known : p.tId ≠ 0)
    (unheld : ∀ source, m.recvTransfers.view (recvView p.tId source) = none)
    (opened : (m.recvTransfers i).fManager.writeFile name p.fileSize env.target = (true, f)) :
    Takes m p given (m.modifyRecv i fun t => { t with
      fManager := f
      hdr := p.hdr
      file := name
      state := .getResponse }) := by
  obtain ⟨storing, empty⟩ := FileManager.writeFile_storing opened
  refine ⟨?_, fun l source matched => matched.modifyRecv _ _, fun t nonzero source up rest => ?_⟩
  · refine orderly.modifyRecv ⟨fun _ => known, fun _ => storing⟩ fun t _ some => .inr ?_
    rw [← some.2]
    exact unheld
  · by_cases same : p.tId = t
    · subst same
      have offered : offer p given p.tId source = given := if_pos ⟨type, rfl⟩
      have moved := TransferArray.view_modify (i := i) (unheld given) fun t => { t with
        fManager := f
        hdr := p.hdr
        file := name
        state := .getResponse }
      have shown : ({ m.recvTransfers i with
          fManager := f, hdr := p.hdr, file := name, state := .getResponse } :
          ActiveTransfer).recvView p.tId given = some ⟨true, given, []⟩ := by
        simp [recvView, ActiveTransfer.receiving, empty, Packet.hdr]
      have seen : Parcel.downView p.tId ⟨p, given⟩ = some (.request given) := by
        simp [Parcel.downView, type]
      have first : (m.side p.tId source up (⟨p, given⟩ :: rest)).down =
          .request given :: (m.side p.tId source up rest).down := side_takes seen
      rw [offered]
      refine .single ?_
      simp only [side, TransferManager.modifyRecv, moved, shown]
      exact .getsRequest first
    · have offered : offer p given t source = source := if_neg fun both => same both.2
      rw [offered, side_passes (Parcel.downView_other same)]
      refine turns_recv (orderly.oneRecv t nonzero source) (.inr ?_)
      simp [recvView, Packet.hdr, same]

/-- A slot whose request is granted waits for those it named. -/
theorem valid_takes (orderly : m.Orderly) (type : p.type? = some .transferValid)
    (unowned : m.hostTransfers.view (hostView p.tId) = none)
    (matched : m.Matches p.clientTransferId given)
    (waits : (m.hostTransfers i).state = .getResponse)
    (own : (m.hostTransfers i).localId = p.clientTransferId) :
    Takes m p given (m.modifyHost i fun t => { t with hdr := p.hdr, state := .pending }) := by
  have asks : (m.hostTransfers i).asking = true := by simp [asking, waits]
  have fresh := (orderly.hosts i).fresh (.inr asks)
  have unasked : ({ m.hostTransfers i with hdr := p.hdr, state := .pending } :
      ActiveTransfer).asking = false := rfl
  have later : Waits (m.hostTransfers i) { m.hostTransfers i with hdr := p.hdr, state := .pending } :=
    fun asking => by simp [unasked] at asking
  have granted : ActiveTransfer.Supplied { m.hostTransfers i with hdr := p.hdr, state := .pending } :=
    .granted unasked (fun asking => by cases asking) fun _ => (orderly.hosts i).ready (.inr asks)
  refine ⟨orderly.modifyHost granted later fun t _ some => .inr ?_,
    fun l source matched => matched.modifyHost later, fun t nonzero source up rest => ?_⟩
  · rw [← (hostView_isSome.mp some).2]
    exact unowned
  · rw [offer, if_neg (by simp [type])]
    by_cases same : p.tId = t
    · subst same
      have moved := TransferArray.view_modify (i := i) unowned fun t => { t with
        hdr := p.hdr
        state := .pending }
      have shown : ({ m.hostTransfers i with hdr := p.hdr, state := .pending } :
          ActiveTransfer).hostView p.tId = some ⟨false, given, fun id => decide (id ∈ p.named)⟩ := by
        rw [← granted_awaits fresh p, ← matched.same i asks own]
        simp [hostView, hosting, Packet.hdr]
      have seen : Parcel.downView p.tId ⟨p, given⟩ =
          some (.valid given fun id => decide (id ∈ p.named)) := by
        simp [Parcel.downView, type]
      have first : (m.side p.tId source up (⟨p, given⟩ :: rest)).down =
          .valid given (fun id => decide (id ∈ p.named)) :: (m.side p.tId source up rest).down :=
        side_takes seen
      refine .single ?_
      simp only [side, TransferManager.modifyHost, moved, shown]
      exact .getsValid first
    · rw [side_passes (Parcel.downView_other same)]
      refine turns_host (orderly.oneHost t nonzero) (.inr ?_)
      simp [hostView, Packet.hdr, same]

/-- The owner hears of a recipient. -/
theorem hears_takes {reply : Bool} (orderly : m.Orderly)
    (answer : p.type? = some .transferReply ∨ p.type? = some .transferCancel)
    (hosting : (m.hostTransfers i).hosting = true) (named : (m.hostTransfers i).hdr.tId = p.tId) :
    Takes m p given (m.modifyHost i (·.setRequest p.hdrFrom reply)) := by
  have view (t : TransferId) : Parcel.downView t ⟨p, given⟩ =
      if p.tId = t then some (.answer p.hdrFrom) else none := by
    rcases answer with type | type <;> simp only [Parcel.downView, type]
  have other : p.type? ≠ some .transferRequest := by
    rcases answer with type | type <;> simp [type]
  have quiet (t : TransferId) (v : Down ClientId UInt8) (seen : Parcel.downView t ⟨p, given⟩ = some v) :
      v.carries = false := by
    rw [view] at seen
    split at seen
    · cases seen
      rfl
    · cases seen
  rcases setRequest_hears (m.hostTransfers i) p.hdrFrom reply with
    cancelled | ⟨state, hdr, file, others, all⟩
  · refine Lapses.takes (.leaves orderly ?_ ?_ ?_) other quiet
    · simp [ActiveTransfer.hosting, cancelled]
    · simp [asking, cancelled]
    · simp [cancelled]
  · have still : ((m.hostTransfers i).setRequest p.hdrFrom reply).hosting = true := by
      rcases state with state | state
      · simp [ActiveTransfer.hosting, state]
      · rw [ActiveTransfer.hosting, state]
        exact hosting
    have unasked : ((m.hostTransfers i).setRequest p.hdrFrom reply).asking = false := by
      rcases (by simpa [ActiveTransfer.hosting] using still :
        ((m.hostTransfers i).setRequest p.hdrFrom reply).state = .pending ∨
          ((m.hostTransfers i).setRequest p.hdrFrom reply).state = .active) with state | state <;>
        simp [asking, state]
    have later : Waits (m.hostTransfers i) ((m.hostTransfers i).setRequest p.hdrFrom reply) :=
      fun asking => by simp [unasked] at asking
    have busy : ((m.hostTransfers i).setRequest p.hdrFrom reply).state ≠ .empty := fun free => by
      simp [ActiveTransfer.hosting, free] at still
    have granted := Supplied.granted unasked busy fun _ => file ▸ (orderly.hosts i).ready (.inl hosting)
    refine ⟨orderly.modifyHost granted later fun t _ some => .inl ?_,
      fun l source matched => matched.modifyHost later, fun t nonzero source up rest => ?_⟩
    · rw [hostView_isSome, hdr] at some
      exact hostView_isSome.mpr ⟨hosting, some.2⟩
    · rw [offer, if_neg fun both => other both.1]
      by_cases same : p.tId = t
      · have single := orderly.oneHost t nonzero
        have before : (m.hostTransfers i).hostView t = some ⟨(m.hostTransfers i).state = .active,
            (m.hostTransfers i).fManager.remaining, (m.hostTransfers i).awaits⟩ :=
          if_pos ⟨hosting, named.trans same⟩
        have after : ((m.hostTransfers i).setRequest p.hdrFrom reply).hostView t =
            some ⟨((m.hostTransfers i).setRequest p.hdrFrom reply).state = .active,
              (m.hostTransfers i).fManager.remaining,
              ((m.hostTransfers i).setRequest p.hdrFrom reply).awaits⟩ := by
          rw [← file]
          exact if_pos ⟨still, by rw [hdr, named, same]⟩
        have found : (m.side t source up (⟨p, given⟩ :: rest)).host = _ := single.view before
        have moved := single.modify (by rw [before]; rfl) (·.setRequest p.hdrFrom reply)
        have first : (m.side t source up (⟨p, given⟩ :: rest)).down =
            .answer p.hdrFrom :: (m.side t source up rest).down :=
          side_takes (by rw [view, if_pos same])
        refine .single ?_
        simp only [side, TransferManager.modifyHost, moved, after]
        exact .hears first found rfl others (by simpa using all)
      · rw [side_passes (Parcel.downView_other same)]
        refine turns_host (orderly.oneHost t nonzero) (.inr ?_)
        simp [hostView, hdr, named, same]

/-- Where no slot receives the transfer, a part of it is passed over. -/
theorem ignored_takes (orderly : m.Orderly)
    (none : ∀ i, ¬ ((m.recvTransfers i).state = .active ∧ p.tId = (m.recvTransfers i).hdr.tId))
    (other : p.type? ≠ some .transferRequest) : Takes m p given m := by
  refine ⟨orderly, fun _ _ matched => matched, fun t _ source up rest => ?_⟩
  rw [offer, if_neg fun both => other both.1]
  cases seen : Parcel.downView t ⟨p, given⟩ with
  | none => rw [side_passes seen]
  | some view =>
    refine .single (.skips (side_takes seen) fun _ r found => ?_)
    obtain ⟨i, shown⟩ := TransferArray.exists_of_view found
    have named := (recvView_isSome.mp (shown ▸ rfl : ((m.recvTransfers i).recvView t source).isSome)).2
    have id : p.tId = t := by
      by_contra apart
      have unseen := Parcel.downView_other (m := ⟨p, given⟩) apart
      rw [unseen] at seen
      cases seen
    have inactive : (m.recvTransfers i).state ≠ .active := fun active =>
      none i ⟨active, id.trans named.symm⟩
    unfold recvView at shown
    split at shown
    · cases shown
      simp [inactive]
    · cases shown

/-- A slot that receives a transfer takes the next part of it. -/
theorem stored_takes {f : FileManager} {bytes : Option Nat} (orderly : m.Orderly)
    (type : p.type? = some .transferData) (active : (m.recvTransfers i).state = .active)
    (named : p.tId = (m.recvTransfers i).hdr.tId)
    (wrote : (m.recvTransfers i).fManager.writeWork p bytes = .ok f) :
    Takes m p given (m.modifyRecv i fun t => { t with fManager := f }) := by
  have receiving : (m.recvTransfers i).receiving = true := by simp [ActiveTransfer.receiving, active]
  obtain ⟨storing, written⟩ :=
    FileManager.writeWork_storing ((orderly.receives i).storing receiving) wrote
  refine ⟨?_, fun l source matched => matched.modifyRecv _ _, fun t nonzero source up rest => ?_⟩
  · exact orderly.modifyRecv ⟨(orderly.receives i).known, fun _ => storing⟩ fun t _ some => .inl some
  · rw [offer, if_neg (by simp [type])]
    by_cases same : p.tId = t
    · have single := orderly.oneRecv t nonzero source
      have before : (m.recvTransfers i).recvView t source =
          some ⟨false, source, (m.recvTransfers i).fManager.stored⟩ := by
        simp [recvView, receiving, active, ← named, same]
      have after : ({ m.recvTransfers i with fManager := f } : ActiveTransfer).recvView t source =
          some ⟨false, source, (m.recvTransfers i).fManager.stored ++ p.payload⟩ := by
        rw [← written]
        simp [recvView, ActiveTransfer.receiving, active, ← named, same]
      have found : (m.side t source up (⟨p, given⟩ :: rest)).recv = _ := single.view before
      have moved := single.modify (by rw [before]; rfl) fun t => { t with fManager := f }
      have first : (m.side t source up (⟨p, given⟩ :: rest)).down =
          .data p.payload :: (m.side t source up rest).down :=
        side_takes (by simp [Parcel.downView, type, same])
      refine .single ?_
      simp only [side, TransferManager.modifyRecv, moved, after]
      exact .stores first found rfl
    · rw [side_passes (Parcel.downView_other same)]
      refine turns_recv (orderly.oneRecv t nonzero source) (.inr ?_)
      simp [recvView, ← named, same]

/-- A slot that has received a transfer is free again. -/
theorem completed_takes (orderly : m.Orderly) (type : p.type? = some .transferComplete)
    (active : (m.recvTransfers i).state = .active) (named : p.tId = (m.recvTransfers i).hdr.tId) :
    Takes m p given
      (m.modifyRecv i fun t => { t with fManager := t.fManager.close }.zeroed) := by
  have receiving : (m.recvTransfers i).receiving = true := by simp [ActiveTransfer.receiving, active]
  refine ⟨orderly.modifyRecv (.idle rfl) fun t _ some => Bool.noConfusion (some.1 : false = true),
    fun l source matched => matched.modifyRecv _ _, fun t nonzero source up rest => ?_⟩
  rw [offer, if_neg (by simp [type])]
  by_cases same : p.tId = t
  · have some : ((m.recvTransfers i).recvView t source).isSome :=
      recvView_isSome.mpr ⟨receiving, named.symm.trans same⟩
    have moved := (orderly.oneRecv t nonzero source).modify some fun t =>
      { t with fManager := t.fManager.close }.zeroed
    have first : (m.side t source up (⟨p, given⟩ :: rest)).down =
        .complete :: (m.side t source up rest).down :=
      side_takes (by simp [Parcel.downView, type, same])
    refine .single ?_
    simp only [side, TransferManager.modifyRecv, moved]
    rw [recvView_idle rfl]
    exact .finishes first
  · rw [side_passes (Parcel.downView_other same)]
    exact turns_recv (orderly.oneRecv t nonzero source) (.inr (recvView_idle rfl))

/-- What the server promises of a packet that is next for a client. -/
structure Arrives (m : TransferManager) (p : Packet) (given : List UInt8) : Prop where
  known : p.type? = some .transferRequest ∨ p.type? = some .transferCancel → p.tId ≠ 0
  unheld : p.type? = some .transferRequest →
    ∀ source, m.recvTransfers.view (recvView p.tId source) = none
  unowned : p.type? = some .transferValid → m.hostTransfers.view (hostView p.tId) = none
  matched : p.type? = some .transferValid → m.Matches p.clientTransferId given

theorem downView_quiet (given : List UInt8) (data : p.type? ≠ some .transferData)
    (complete : p.type? ≠ some .transferComplete) (t : TransferId) (view : Down ClientId UInt8)
    (seen : Parcel.downView t ⟨p, given⟩ = some view) :
    view.carries = false := by
  unfold Parcel.downView at seen
  split at seen
  · split at seen <;> first | (cases seen; rfl) | contradiction
  · cases seen

theorem handle_takes (orderly : m.Orderly) (arrives : m.Arrives p given)
    (done : m.handle env p = .ok next) : Takes m p given next := by
  by_cases data : p.type? = some .transferData
  · rw [handle, data] at done
    dsimp only at done
    unfold recvData at done
    split at done
    · rename_i none
      cases done
      exact ignored_takes orderly (fun i => by simpa using TransferArray.search_none none i) (by simp [data])
    · rename_i i found
      have here := TransferArray.search_some found
      simp only [decide_eq_true_eq] at here
      obtain ⟨f, wrote, done⟩ := bind_ok done
      cases done
      exact stored_takes orderly data here.1 here.2 wrote
  · by_cases complete : p.type? = some .transferComplete
    · rw [handle, complete] at done
      cases done
      unfold recvComplete
      split
      · rename_i none
        exact ignored_takes orderly (fun i => by simpa using TransferArray.search_none none i)
          (by simp [complete])
      · rename_i i found
        have here := TransferArray.search_some found
        simp only [decide_eq_true_eq] at here
        exact (completed_takes orderly complete here.1 here.2).pushBacklog _ _
    · have quiet := downView_quiet given data complete
      cases handle_handled done with
      | ignored =>
        by_cases request : p.type? = some .transferRequest
        · refine ⟨orderly, fun _ _ matched => matched, fun t _ source up rest => ?_⟩
          by_cases same : p.tId = t
          · subst same
            have offered : offer p given p.tId source = given := if_pos ⟨request, rfl⟩
            have kept : m.side p.tId given up rest = m.side p.tId source up rest := by
              simp only [side, arrives.unheld request]
            rw [offered, kept]
            exact turns_skip (quiet p.tId)
          · rw [offer, if_neg fun both => same both.2]
            exact turns_skip (quiet t)
        · exact (Lapses.refl orderly).takes request quiet
      | @requested name f i type idle named opened =>
        exact request_takes orderly type (arrives.known (.inl type)) (arrives.unheld type) opened
      | valid i type waits own =>
        exact valid_takes orderly type (arrives.unowned type) (arrives.matched type) waits own
      | invalid i type waits own =>
        exact Lapses.takes (.leaves orderly rfl rfl fun same => by cases same) (by simp [type]) quiet
      | dropped i type found =>
        exact (Lapses.takes (.drops orderly rfl) (by simp [type]) quiet).pushBacklog _ _
      | left i type none found =>
        obtain ⟨can, named⟩ := cancels_canCancel (TransferArray.search_some found)
        have granted : (m.hostTransfers i).state ≠ .getResponse := fun asks =>
          have fresh := (orderly.hosts i).fresh (.inr (by simp [asking, asks]))
          arrives.known (.inr type) (named.trans fresh.tId)
        have hosting : (m.hostTransfers i).hosting = true := by
          simpa [canCancel, ActiveTransfer.hosting, granted, or_comm] using can
        exact hears_takes orderly (.inr type) hosting named.symm
      | replied i type pending named =>
        exact hears_takes orderly (.inl type) (by simp [hosting, pending]) named
      | written i type active named wrote => exact absurd type data
      | completed i type found => exact absurd type complete

end TransferManager

end Quickshare
