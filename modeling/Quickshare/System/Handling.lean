import Quickshare.System.Answering

/-! Every packet that the server handles takes the transfers some steps further. -/

namespace Quickshare

open Bytes Runs Relay

section Packets

variable {p q : Packet} {c i : Slot} {t : TransferId} {source : List UInt8}

/-- The packet is about no transfer. -/
def Packet.aside (p : Packet) : Prop := ∀ type, p.type? = some type → type.least = 0

theorem Packet.aside.of_type {type : PacketType} (same : p.type? = some type) (none : type.least = 0) :
    p.aside := by
  intro other here
  rw [same] at here
  cases here
  exact none

theorem Packet.aside.whole (aside : p.aside) : p.whole where
  least type kind := by
    rw [aside type kind]
    exact Nat.zero_le _
  most kind := by cases aside _ kind

theorem Packet.aside.downView (aside : p.aside) : Parcel.downView t ⟨p, source⟩ = none := by
  unfold Parcel.downView
  dsimp only
  split
  · split <;> first | rfl | (rename_i kind; cases aside _ kind)
  · rfl

theorem Packet.aside.upView (aside : p.aside) : Parcel.upView t ⟨p, source⟩ = none := by
  unfold Parcel.upView
  dsimp only
  split
  · split <;> first | rfl | (rename_i kind; cases aside _ kind)
  · rfl

/-- What the server may send to `i` when it handles the packet `p` of `c`. -/
structure Packet.Suits (p : Packet) (c i : Slot) (q : Packet) : Prop where
  whole : q.whole
  known : q.type? = some .transferRequest ∨ q.type? = some .transferCancel → q.tId ≠ 0
  valid : q.type? = some .transferValid → q.tId ≠ 0 ∧
    i = c ∧ p.type? = some .transferRequest ∧ q.clientTransferId = p.clientTransferId

theorem Packet.aside.suits (aside : q.aside) : p.Suits c i q where
  whole := aside.whole
  known kind := by
    rcases kind with request | cancel
    · cases aside _ request
    · cases aside _ cancel
  valid kind := by cases aside _ kind

/-- Parts, ends and answers of a transfer are sent on as they are. -/
theorem Packet.whole.suits {type : PacketType} (whole : q.whole) (kind : q.type? = some type)
    (request : type ≠ .transferRequest) (cancel : type ≠ .transferCancel)
    (valid : type ≠ .transferValid) : p.Suits c i q where
  whole := whole
  known other := by
    rcases other with same | same
    · exact absurd (Option.some.inj (kind.symm.trans same)) request
    · exact absurd (Option.some.inj (kind.symm.trans same)) cancel
  valid other := absurd (Option.some.inj (kind.symm.trans other)) valid

/-- Every packet of the plan suits the one it is who gets it. -/
def Plan.Suits (plan : Plan) (p : Packet) (c : Slot) : Prop :=
  ∀ send ∈ plan, ∀ old, p.Suits c send.1 (send.2 old)

theorem Plan.Suits.toConnected {s : Server} {Item : Type} {key : Item → ClientId}
    {packet : Item → Packet → Packet} {items : List Item}
    (suits : ∀ x ∈ items, ∀ i old, p.Suits c i (packet x old)) :
    (toConnected s key packet items).Suits p c := by
  intro send member old
  obtain ⟨x, listed, found⟩ := List.mem_flatMap.mp member
  obtain ⟨r, -, rfl⟩ := Option.map_eq_some_iff.mp (Option.mem_toList.mp found)
  exact suits x listed r old

/-- A packet that is not data is whole if its size says so. -/
theorem Packet.whole.of_size {type : PacketType} (kind : q.type? = some type)
    (large : type.least ≤ q.size) (other : type ≠ .transferData) : q.whole where
  least here same := by
    cases kind.symm.trans same
    exact large
  most same := absurd (Option.some.inj (kind.symm.trans same)) other

theorem Plan.Suits.append {first second : Plan} (one : first.Suits p c) (two : second.Suits p c) :
    Plan.Suits (first ++ second) p c := by
  intro send member
  rcases List.mem_append.mp member with early | late
  · exact one send early
  · exact two send late

theorem Plan.Suits.single {f : Packet → Packet} (suits : ∀ old, p.Suits c i (f old)) :
    Plan.Suits [(i, f)] p c := by
  intro send member
  cases List.mem_singleton.mp member
  exact suits

end Packets

section Suiting

variable {s : Server} {p : Packet} {c : Slot} {db : Database} {tId : TransferId}

theorem relayPlan_suits {q : Packet} {type : PacketType} (whole : q.whole) (kind : q.type? = some type)
    (request : type ≠ .transferRequest) (cancel : type ≠ .transferCancel)
    (valid : type ≠ .transferValid) : (relayPlan s q db tId).1.Suits p c :=
  .toConnected fun _ _ _ _ => whole.suits kind request cancel valid

theorem completePlan_suits (whole : (s.client c).decryptBuf.packet.whole)
    (kind : (s.client c).decryptBuf.packet.type? = some .transferComplete) :
    (completePlan s c).1.Suits p c := by
  simp only [completePlan]
  split
  · exact relayPlan_suits whole kind (by decide) (by decide) (by decide)
  · exact fun _ member => by cases member

theorem replyPlan_suits (whole : (s.client c).decryptBuf.packet.whole)
    (kind : (s.client c).decryptBuf.packet.type? = some .transferReply) : (replyPlan s c).1.Suits p c := by
  let q := (s.client c).decryptBuf.packet.storeInt64 16 (s.client c).id
  have same : Packet.type? q = some .transferReply :=
    (Packet.type?_storeInt64 _ _ (by decide)).trans kind
  have size : Packet.size q = (s.client c).decryptBuf.packet.size :=
    Packet.size_storeInt64 _ _ (by decide)
  have complete : Packet.whole q := .of_size same (size ▸ whole.least _ kind) (by decide)
  have told (creator : ClientId) :
      (toConnected s id (fun _ _ => q) [creator]).Suits p c :=
    .toConnected fun _ _ _ _ => complete.suits same (by decide) (by decide) (by decide)
  simp only [replyPlan]
  split
  · exact fun _ member => by cases member
  · exact told _

theorem transferState_whole (sender : ClientId) (tId : TransferId) (old : Packet) :
    (transferState sender tId .transferCancel old).whole := by
  have size : Packet.size (transferState sender tId .transferCancel old) = transferStateSize := by
    rw [transferState, Packet.size_storeInt64 _ _ (by decide), Packet.size_storeInt64 _ _ (by decide),
      Packet.size_packetHdr _ _ (by decide)]
  exact .of_size (transferState_cancels sender tId old).1 (Nat.le_of_eq size.symm) (by decide)

/-- A cancel is of a transfer that has an id. -/
theorem cancel_suits (sender : ClientId) (nonzero : tId ≠ 0) (old : Packet) (i : Slot) :
    p.Suits c i (transferState sender tId .transferCancel old) := by
  obtain ⟨kind, transfer, -⟩ := transferState_cancels sender tId old
  refine ⟨transferState_whole sender tId old, fun _ => transfer.symm ▸ nonzero, fun same => ?_⟩
  cases kind.symm.trans same

theorem Tables.Sound.nonzero {tables : Tables} (sound : tables.Sound)
    {creator : ClientId} (member : ⟨tId, creator⟩ ∈ tables.transfers) : tId ≠ 0 := by
  rintro rfl
  exact absurd (show (1 : Int64) ≤ 0 from sound.positive _ member) (by decide)

theorem cancelPlan_suits (tidy : s.db.Tidy) (sound : s.db.tables.Sound) :
    (cancelPlan s c).1.Suits p c := by
  obtain ⟨cancels, rows⟩ := cancelPlan_rows tidy c
  generalize (cancelPlan s c).2.tables = tables at rows
  generalize (cancelPlan s c).1 = plan at cancels rows ⊢
  intro send member old
  rw [cancels send member]
  cases rows with
  | owner known => exact cancel_suits _ (sound.nonzero known.choose_spec) old _
  | recipient known => exact cancel_suits _ (sound.nonzero known.choose_spec) old _
  | stranger => cases member

theorem grantPlan_suits (whole : p.whole) (kind : p.type? = some .transferRequest) (nonzero : tId ≠ 0) :
    (grantPlan s c p tId).Suits p c := by
  have valid : (transferResponse p .transferValid tId).type? = some .transferValid :=
    transferResponse_type p tId
  have answer : (transferResponse p .transferValid tId).tId = tId := transferResponse_tId p tId
  have asked : (transferResponse p .transferValid tId).clientTransferId = p.clientTransferId :=
    valid_load p tId (by decide)
  have large : (transferResponse p .transferValid tId).size = requestSize := by
    rw [transferResponse, if_pos rfl, Packet.size_storeInt64 _ _ (by decide),
      Packet.size_packetHdr _ _ (by decide)]
  have same := (requestCopy_type p (s.client c).id tId).trans kind
  have transfer := requestCopy_tId p (s.client c).id tId
  have size : (requestCopy p (s.client c).id tId).size = p.size := by
    rw [requestCopy, Packet.size_storeInt64 _ _ (by decide), Packet.size_storeInt64 _ _ (by decide)]
  change Plan.Suits ([(c, fun _ => transferResponse p .transferValid tId)] ++
    toConnected s id (fun _ _ => requestCopy p (s.client c).id tId) p.named) p c
  generalize transferResponse p .transferValid tId = first at valid answer asked large ⊢
  generalize requestCopy p (s.client c).id tId = copy at same transfer size ⊢
  refine .append (.single fun _ => ?_) (.toConnected fun _ _ i _ => ?_)
  · refine ⟨.of_size valid (Nat.le_of_eq large.symm) (by decide), fun other => ?_,
      fun _ => ⟨answer.symm ▸ nonzero, rfl, kind, asked⟩⟩
    rw [valid] at other
    rcases other with other | other <;> cases other
  · refine ⟨.of_size same (size ▸ whole.least _ kind) (by decide), fun _ => transfer.symm ▸ nonzero,
      fun other => ?_⟩
    cases same.symm.trans other

/-! Packets about no transfer -/

theorem response_aside {type : PacketType} (none : type.least = 0) (size : Nat) (old : Packet) :
    (Packet.packetHdr type size old).aside :=
  .of_type (Packet.type?_packetHdr type size old) none

theorem introPlan_aside (s : Server) (c : Slot) (peers : List Slot) :
    ∀ send ∈ introPlan s c peers, ∀ old, (send.2 old).aside := by
  intro send member old
  unfold introPlan at member
  split at member
  · cases member
  · rcases List.mem_cons.mp member with rfl | single
    · exact .of_type (newUsersPacket_type _ old) rfl
    · obtain ⟨i, -, rfl⟩ := List.mem_map.mp single
      have type : (singleUserPacket (s.client c) .serverNewUsers).type? = some .serverNewUsers := by
        simp only [singleUserPacket]
        rw [Packet.type?_write _ _ (by decide), Packet.type?_storeInt64 _ _ (by decide),
          Packet.type?_store _ _ _ (by decide), Packet.type?_packetHdr]
      exact .of_type type rfl

theorem refusePlan_aside (s : Server) (c : Slot) : ∀ send ∈ refusePlan s c, ∀ old, (send.2 old).aside := by
  intro send member old
  have type : (transferResponse (s.client c).decryptBuf.packet .transferInvalid 0).type? =
      some .transferInvalid := transferResponse_type _ _
  rw [List.mem_singleton.mp member]
  exact .of_type type rfl

/-- An introduction leaves the transfers alone. -/
theorem packetIntro_aside {u : Server} (valid : s.QueuesValid) (done : packetIntro s c = .ok u) :
    ∃ plan, s.Posts plan u ∧ (∀ send ∈ plan, ∀ old, (send.2 old).aside) ∧
      u.db.tables.transferClients = s.db.tables.transferClients := by
  have single {type : PacketType} (none : type.least = 0) :
      ∀ send ∈ [(c, Packet.packetHdr type 0)], ∀ old, Packet.aside (send.2 old) := by
    intro send member
    cases List.mem_singleton.mp member
    exact response_aside none 0
  rw [packetIntro_eq] at done
  by_cases abnormal : (s.client c).state = .complete ∨
      (s.client c).decryptBuf.packet.introSession > 1
  · rw [if_pos abnormal] at done
    have sends := serverResponse_sends s c .serverDeny
    have kept := congrArg (fun db => db.tables.transferClients) (done ▸ sends).db_ok
    exact ⟨_, sends.posts valid done, single rfl, kept⟩
  · rw [if_neg abnormal] at done
    have opened := (introduced_transfers s c).clients
    generalize s.introduced c = session at opened done
    generalize (terminateIntro (s.client c).decryptBuf.packet).introName = name at done
    dsimp only at done
    let s' : Server := { s.terminated c with db := session.2 }
    have same : SameSights s s' := .terminated s c _ session.2
    have rows : s'.db.tables.transferClients = s.db.tables.transferClients := opened
    rw [show ({ s.terminated c with db := session.2 } : Server) = s' from rfl] at done
    generalize s' = t at same done rows
    have valid' : t.QueuesValid := valid.of_queues same.queue
    by_cases refused : session.1 = 0
    · rw [if_pos refused] at done
      have sends := serverResponse_sends t c .serverDeny
      have kept := congrArg (fun db => db.tables.transferClients) (done ▸ sends).db_ok
      exact ⟨_, (sends.posts valid' done).congr same.queue same.sent (fun _ => rfl) rfl, single rfl,
        kept.trans rows⟩
    · rw [if_neg refused] at done
      obtain ⟨v, answered, done⟩ := bind_ok done
      have first := serverResponse_sends t c .serverOk
      have posted := first.posts valid' answered
      have answers := congrArg (fun db => db.tables.transferClients) (answered ▸ first).db_ok
      have validV := first.queuesValid valid'
      rw [answered] at validV
      have queues (i : Slot) : ((v.completed c session.1 name).client i).msgQueue =
          (v.client i).msgQueue := v.completed_queue c i _ name
      have second := sendSessionUsers_sends (v.completed c session.1 name) c
      have told := second.posts (Server.QueuesValid.of_queues validV queues) done
      have listed := congrArg (fun db => db.tables.transferClients) (done ▸ second).db_ok
      refine ⟨_, (posted.trans (told.congr queues rfl (fun _ => rfl) rfl)).congr same.queue same.sent
        (fun _ => rfl) rfl, fun send member => ?_, listed.trans (answers.trans rows)⟩
      rcases List.mem_append.mp member with early | late
      · exact single rfl send early
      · exact introPlan_aside _ c _ send late

end Suiting

namespace World

variable {w : World} {c : Slot} {s u : Server} {p : Packet} {parcel : Parcel} {rest : List Parcel}

/-- The server of the world, having read a packet of `c`, posts a plan that suits the
packet, and the transfers get some steps further. -/
structure Answers (w : World) (c : Slot) (s : Server) (parcel : Parcel) (rest : List Parcel)
    (p : Packet) (plan : Plan) (u : Server) : Prop where
  posts : s.Posts plan u
  suits : plan.Suits p c
  steps : ∀ t, Steps (w.exchange t) (w.after c rest parcel.source plan u.db.tables t)

/-- A packet that is about no transfer, and whose answers are not. -/
theorem aside_answers {plan : Plan} (reads : w.Reads c s) (opens : w.Opens c s p parcel rest)
    (unseen : ∀ t, Parcel.upView t ⟨p, parcel.source⟩ = none) (posts : s.Posts plan u)
    (aside : ∀ send ∈ plan, ∀ old, (send.2 old).aside)
    (rows : u.db.tables.transferClients = s.db.tables.transferClients) :
    w.Answers c s parcel rest p plan u where
  posts := posts
  suits send member old := (aside send member old).suits
  steps t := by
    refine steps_unseen opens.first ((opens.view).trans (unseen t)) (fun id => ?_) fun n => ?_
    · rw [Tables.row, Tables.row, rows, reads.db]
    · exact heard_nothing (fun send member old => (aside send member old).downView) n

/-- A request, whether it is granted or not. -/
theorem request_answers (seated : w.Seated) (reads : w.Reads c s) (orderly : s.Orderly)
    (opens : w.Opens c s p parcel rest) (type : p.type? = some .transferRequest)
    (once : s.granted c → (s.requested c).Nodup)
    (unknown : s.granted c → ∀ n, (w.slot n).isSome → ((w.exchange (s.recorded c).2.1).side n).Blank)
    (done : packetTransfer s c = .ok u) : ∃ plan, w.Answers c s parcel rest p plan u := by
  have held := opens.held
  have begun : s.begun.1 = true := by
    rw [Server.begun, dbTransaction_begin, if_pos ⟨orderly.tidy.works _, orderly.tidy.closed⟩]
  by_cases recorded : (s.recorded c).1 = true
  · have granted : s.granted c := ⟨by rw [held]; exact type, begun, recorded⟩
    have grants := recorded_grants begun recorded
    rw [show s.requested c = p.named by rw [Server.requested, held]; rfl] at grants
    have sent := packetTransfer_granted begun recorded
    rw [held] at sent
    have posts := sent.posts (orderly.queues.of_queues fun _ => rfl) done
    rw [done] at sent
    refine ⟨grantPlan s c p (s.recorded c).2.1,
      posts.congr (fun _ => rfl) rfl (fun _ => rfl) rfl, ?_, fun t => ?_⟩
    · exact grantPlan_suits opens.whole type grants.nonzero
    · rw [sent.db_ok]
      refine grant_steps seated reads orderly opens type grants ?_ (unknown granted)
      have names := once granted
      rw [Server.requested, held] at names
      exact names
  · have refused : (s.recorded c).1 = false := by simpa using recorded
    obtain ⟨tables, -, -⟩ := refused_tables begun refused
    obtain ⟨r, sent, same⟩ := packetTransfer_refused begun refused
    rw [same] at done
    obtain ⟨v, ended, done⟩ := bind_ok done
    generalize (debugTransfer (s.client c).decryptBuf.packet).inside = inside at done
    cases inside with
    | false => cases done
    | true =>
      obtain rfl : v = u := Except.ok.inj done
      have posts := sent.posts orderly.queues ended
      rw [ended] at sent
      exact ⟨_, aside_answers reads opens (fun t => by simp [Parcel.upView, type]) posts
        (refusePlan_aside s c) (by rw [sent.db_ok, tables])⟩

/-- What a packet does that the server has read from a client. -/
theorem analizePacket_answers (seated : w.Seated) (reads : w.Reads c s) (orderly : s.Orderly)
    (opens : w.Opens c s p parcel rest)
    (once : s.granted c → (s.requested c).Nodup)
    (unknown : s.granted c → ∀ n, (w.slot n).isSome → ((w.exchange (s.recorded c).2.1).side n).Blank)
    (done : analizePacket s c = .ok u) : ∃ plan, w.Answers c s parcel rest p plan u := by
  have held := opens.held
  have whole := opens.whole
  have idle (unseen : ∀ t, Parcel.upView t ⟨p, parcel.source⟩ = none)
      (ended : Except.ok s = (.ok u : Run Server)) : ∃ plan, w.Answers c s parcel rest p plan u := by
    cases ended
    exact ⟨[], aside_answers reads opens unseen (.of_queues (fun _ => rfl) rfl)
      (fun _ member => by cases member) rfl⟩
  have sends {plan : Plan} {db : Database} {r : Run Server} (sends : Sends s plan db r)
      (ended : r = .ok u) (suits : plan.Suits p c)
      (steps : ∀ t, Steps (w.exchange t) (w.after c rest parcel.source plan db.tables t)) :
      ∃ plan, w.Answers c s parcel rest p plan u := by
    have posts := sends.posts orderly.queues ended
    rw [ended] at sends
    rw [← sends.db_ok] at steps
    exact ⟨plan, posts, suits, steps⟩
  unfold analizePacket at done
  rw [held] at done
  cases type : p.type? with
  | none =>
    rw [type] at done
    exact idle (fun t => by simp [Parcel.upView, type]) done
  | some kind =>
    have unseen (least : kind.least = 0) (t : TransferId) : Parcel.upView t ⟨p, parcel.source⟩ = none :=
      (Packet.aside.of_type type least).upView
    rw [type] at done
    cases kind with
    | clientIntro =>
      obtain ⟨plan, posts, aside, rows⟩ := packetIntro_aside orderly.queues done
      exact ⟨plan, aside_answers reads opens (unseen rfl) posts aside rows⟩
    | transferRequest => exact request_answers seated reads orderly opens type once unknown done
    | transferReply =>
      have kind : (s.client c).decryptBuf.packet.type? = some .transferReply := held ▸ type
      by_cases gone : s.creatorGone c
      · rw [show packetReply s c = _ from packetReply_gone gone] at done
        cases done
      · exact sends (packetReply_sends gone) done (replyPlan_suits (held ▸ whole) kind) fun t =>
          reply_steps seated reads orderly opens type
    | transferData =>
      refine sends (packetData_sends s c) done ?_ fun t => data_steps seated reads orderly opens type
      rw [dataPlan, held]
      exact relayPlan_suits whole type (by decide) (by decide) (by decide)
    | transferComplete =>
      have kind : (s.client c).decryptBuf.packet.type? = some .transferComplete := held ▸ type
      exact sends (packetComplete_sends s c) done (completePlan_suits (held ▸ whole) kind) fun t =>
        complete_steps seated reads orderly opens type
    | transferCancel =>
      exact sends (packetCancel_sends s c) done (cancelPlan_suits orderly.tidy orderly.sound) fun t =>
        cancel_steps orderly reads opens type
    | transferValid => exact idle (fun t => by simp [Parcel.upView, type]) done
    | _ => exact idle (unseen rfl) done

end World

end Quickshare
