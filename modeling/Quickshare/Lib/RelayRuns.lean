import Quickshare.Lib.RelayMoves

/-! Forwarding and offering a file, and any number of steps. -/

namespace Quickshare.Relay

open Function

universe u v w

variable {Client : Type u} {Id : Type v} {Byte : Type w} [DecidableEq Client]
  {x y : Exchange Client Id Byte} {c d h : Client}

section Relay

variable {bytes : List Byte} {rest : List (Up Byte)}

theorem relay_down (d : Client) : ((x.relay c bytes rest).side d).down =
    (x.side d).down ++ if x.row d = .accepted then [.data bytes] else [] := by
  rw [Exchange.relay, Exchange.posts_side, x.takes_down c d]

theorem relay_up (d : Client) : ((x.relay c bytes rest).side d).up =
    if d = c then rest else (x.side d).up := by
  rw [Exchange.relay, Exchange.posts_side, Exchange.takes_side]
  split <;> rfl

theorem relay_host (d : Client) : ((x.relay c bytes rest).side d).host = (x.side d).host := by
  rw [Exchange.relay, Exchange.posts_side, Exchange.takes_side]
  split
  · rename_i same
    rw [same]
  · rfl

theorem relay_recv (d : Client) : ((x.relay c bytes rest).side d).recv = (x.side d).recv := by
  rw [Exchange.relay, Exchange.posts_side, Exchange.takes_side]
  split
  · rename_i same
    rw [same]
  · rfl

theorem relay_downward (other : m.carries = false ∨ m = .complete)
    (member : m ∈ ((x.relay c bytes rest).side d).down) : m ∈ (x.side d).down := by
  rw [relay_down] at member
  rcases List.mem_append.mp member with old | new
  · exact old
  · split at new
    · rw [List.mem_singleton.mp new] at other
      rcases other with quiet | ended
      · cases quiet
      · cases ended
    · cases new

theorem relay_upward (first : (x.side c).up = .data bytes :: rest)
    (member : m ∈ ((x.relay c bytes rest).side d).up) : m ∈ (x.side d).up := by
  rw [relay_up] at member
  split at member
  · rename_i same
    subst same
    rw [first]
    exact List.mem_cons_of_mem _ member
  · exact member

theorem relay_valids (d : Client) : ((x.relay c bytes rest).side d).valids = (x.side d).valids := by
  rw [Party.valids, relay_down]
  split <;> simp [Party.valids, Down.isValid]

theorem relay_asks (d : Client) : ((x.relay c bytes rest).side d).asks = (x.side d).asks := by
  rw [Party.asks, relay_down]
  split <;> simp [Party.asks, Down.isRequest]

theorem relay_early (d : Client) : ((x.relay c bytes rest).side d).early = (x.side d).early := by
  rw [Party.early, relay_recv, Party.early]

theorem relay_replies (first : (x.side c).up = .data bytes :: rest) (d : Client) :
    ((x.relay c bytes rest).side d).replies = (x.side d).replies := by
  rw [Party.replies, relay_up]
  split
  · rename_i same
    subst same
    simp [Party.replies, first, Up.isReply]
  · rfl

theorem relay_unanswered (first : (x.side c).up = .data bytes :: rest) (d : Client) :
    ((x.relay c bytes rest).side d).unanswered ↔ (x.side d).unanswered := by
  simp only [Party.unanswered, relay_asks, relay_early, relay_replies first]

theorem relay_owns (first : (x.side c).up = .data bytes :: rest)
    (owns : ((x.relay c bytes rest).side d).owns) : (x.side d).owns := by
  simp only [Party.owns, relay_valids, relay_host] at *
  rcases owns with valid | hosted | ⟨m, member, carries⟩
  · exact .inl valid
  · exact .inr (.inl hosted)
  · exact .inr (.inr ⟨m, relay_upward first member, carries⟩)

theorem relay_left {left : List Byte} (first : (x.side c).up = .data bytes :: rest)
    (holds : ((x.relay c bytes rest).side d).left left) : (x.side d).left left := by
  rcases holds with ⟨asked, valid⟩ | hosted | ⟨ended, none⟩
  · exact .inl ⟨asked, relay_downward (.inl rfl) valid⟩
  · exact .inr (.inl (by rwa [relay_host] at hosted))
  · exact .inr (.inr ⟨relay_upward first ended, none⟩)

/-- What is on its way to a client that accepted passes from one channel to the other. -/
theorem relay_stream (first : (x.side c).up = .data bytes :: rest) (accepted : x.row d = .accepted) :
    ((x.relay c bytes rest).side d).coming ++ ((x.relay c bytes rest).side c).sent =
      (x.side d).coming ++ (x.side c).sent := by
  simp [Party.coming, Party.sent, relay_down, relay_up, accepted, first, Up.bytes, Down.bytes]

theorem relay_coming (other : x.row d ≠ .accepted) :
    ((x.relay c bytes rest).side d).coming = (x.side d).coming := by
  simp [Party.coming, relay_down, other]

namespace Exchange.Sound

/-- A part of the file finds the part before it at, or on its way to, those that get it. -/
theorem forwarded (sound : x.Sound) (live : x.live c = true)
    (first : (x.side c).up = .data bytes :: rest) (accepted : x.row d = .accepted)
    (found : (x.side d).recv = some r) :
    r.written ++ ((x.relay c bytes rest).side d).coming ++
      ((x.relay c bytes rest).side c).sent <+: r.source := by
  rw [List.append_assoc, relay_stream first accepted, ← List.append_assoc]
  exact sound.goes d c r (.inl accepted) found live

theorem relay_side (sound : x.Sound) (live : x.live c = true)
    (first : (x.side c).up = .data bytes :: rest) (d : Client) :
    ((x.relay c bytes rest).side d).Sound where
  single := by
    have here := (sound.side d).single
    rwa [relay_asks, Party.recvs, relay_recv]
  once := by
    rw [relay_asks, relay_early, relay_replies first]
    exact (sound.side d).once
  quiet pending m member := by
    have before := (relay_unanswered first d).mp pending
    have other : x.row d ≠ .accepted := by
      rcases sound.fresh d before with row | row <;> simp [row]
    rw [relay_down, if_neg other, List.append_nil] at member
    exact (sound.side d).quiet before m member
  unwritten pending r found :=
    (sound.side d).unwritten ((relay_unanswered first d).mp pending) r (by rwa [relay_recv] at found)
  valid := by
    have here := (sound.side d).valid
    rwa [relay_valids, Party.hosts, relay_host]
  last ended := by
    rw [relay_host, relay_valids]
    exact (sound.side d).last (relay_upward first ended)
  upOrder := by
    have order := (sound.side d).upOrder
    rw [relay_up]
    split
    · rename_i same
      subst same
      rw [first, List.pairwise_cons] at order
      exact order.2
    · exact order
  downOrder := by
    have owns : (x.side c).owns := .inr (.inr ⟨.data bytes, by simp [first], rfl⟩)
    rw [relay_down]
    split
    · rename_i accepted
      exact pairwise_unended (sound.side d).downOrder (List.pairwise_singleton ..)
        (.inl (sound.unended live owns (by simp [accepted])))
    · rw [List.append_nil]
      exact (sound.side d).downOrder
  begun r found := by
    rw [relay_recv] at found
    by_cases accepted : x.row d = .accepted
    · exact (List.prefix_append _ _).trans (sound.forwarded live first accepted found)
    · rw [relay_coming accepted]
      exact (sound.side d).begun r found
  whole ended r found active := by
    have owns : (x.side c).owns := .inr (.inr ⟨.data bytes, by simp [first], rfl⟩)
    have before := relay_downward (.inr rfl) ended
    have other : x.row d ≠ .accepted :=
      fun accepted => sound.unended live owns (by simp [accepted]) before
    rw [relay_recv] at found
    rw [relay_coming other]
    exact (sound.side d).whole before r found active

theorem relay (sound : x.Sound) (live : x.live c = true)
    (first : (x.side c).up = .data bytes :: rest) : (x.relay c bytes rest).Sound := by
  have owns : (x.side c).owns := .inr (.inr ⟨.data bytes, by simp [first], rfl⟩)
  have settled (d : Client) : ¬ (x.relay c bytes rest).awaited d := by
    rintro ⟨row, pending⟩
    exact sound.settled live first rfl d ⟨row, (relay_unanswered first d).mp pending⟩
  have gets {d : Client} (gets : x.row d = .accepted ∨ (x.relay c bytes rest).awaited d) :
      x.row d = .accepted := gets.resolve_right (settled d)
  refine ⟨sound.relay_side live first, sound.apart, sound.gone, ?_, ?_, ?_, ?_, ?_, ?_, ?_, ?_, ?_, ?_⟩
  · exact fun d pending => sound.fresh d ((relay_unanswered first d).mp pending)
  · exact fun d e alive one also two =>
      sound.own d e alive (relay_owns first one) also (relay_owns first two)
  · exact fun d e alive ended also other =>
      sound.finished d e alive (relay_downward (.inr rfl) ended) also (relay_owns first other)
  · exact fun d e awaited => absurd awaited (settled d)
  · exact fun d e H awaited => absurd awaited (settled d)
  · exact fun d e source asked awaited => absurd awaited (settled d)
  · exact fun d e awaited => absurd awaited (settled d)
  · exact fun d e left source awaited => absurd awaited (settled d)
  · intro d e left r getting found alive holds
    rw [relay_recv] at found
    have before := relay_left first holds
    obtain rfl : e = c := sound.own e c alive before.owns live owns
    rw [List.append_assoc r.written, relay_stream first (gets getting), ← List.append_assoc]
    exact sound.parts d e left r (.inl (gets getting)) found live before
  · intro d e r getting found alive
    rw [relay_recv] at found
    have whole := sound.forwarded live first (gets getting) found
    by_cases same : e = c
    · subst same
      exact whole
    · have none : ((x.relay c bytes rest).side e).sent = [] := by
        refine List.flatMap_eq_nil_iff.mpr fun m member => ?_
        cases m with
        | data other =>
          exact absurd (sound.own e c alive (.inr (.inr ⟨_, relay_upward first member, rfl⟩)) live
            owns) same
        | _ => rfl
      rw [none, List.append_nil]
      exact (List.prefix_append _ _).trans whole

end Exchange.Sound

end Relay

section Grant

variable {source : List Byte} {asked : Id → Bool}

theorem grant_down (d : Client) : ((x.grant c source asked).side d).down = (x.side d).down ++
    ((if d = c then [.valid source asked] else []) ++
      if x.live d ∧ asked (x.name d) then [.request source] else []) := rfl

/-- A client out of reach gets nothing. -/
theorem grant_dead (live : x.live c = true) (dead : x.live d = false) :
    (x.grant c source asked).side d = x.side d := by
  have other : d ≠ c := by
    rintro rfl
    rw [live] at dead
    cases dead
  have none : ((x.grant c source asked).side d).down = (x.side d).down := by
    simp [grant_down, other, dead]
  exact congrArg (fun down => { x.side d with down }) none

theorem grant_row (row : (x.grant c source asked).row d ≠ .none) :
    x.live d = true ∧ asked (x.name d) = true ∧ (x.grant c source asked).row d = .asked := by
  simp only [Exchange.grant] at row ⊢
  split at row
  · rename_i here
    exact ⟨here.1, here.2, by simp [here]⟩
  · exact absurd rfl row

/-- What a client has of a file it did not know of before. -/
structure Party.Offered (s : Party Id Byte) (source : List Byte) (asked : Id → Bool)
    (owner : Prop) : Prop where
  host : s.host = none
  recv : s.recv = none
  up : s.up = []
  valids : s.valids ≤ 1
  asks : s.asks ≤ 1
  down : ∀ m ∈ s.down, m = .request source ∨ owner ∧ m = .valid source asked

namespace Party.Offered

variable {s : Party Id Byte} {owner : Prop}

theorem quiet (offered : s.Offered source asked owner) (member : m ∈ s.down) :
    m.carries = false := by
  rcases offered.down m member with rfl | ⟨-, rfl⟩ <;> rfl

theorem sound (offered : s.Offered source asked owner) : s.Sound where
  single := by simpa [Party.recvs, offered.recv] using offered.asks
  once := by simpa [Party.early, Party.replies, offered.recv, offered.up] using offered.asks
  quiet _ _ member := offered.quiet member
  unwritten _ r found := by simp [offered.recv] at found
  valid := by simpa [Party.hosts, offered.host] using offered.valids
  last ended := by simp [offered.up] at ended
  upOrder := by simp [offered.up]
  downOrder := List.pairwise_of_forall_mem_list fun _ _ _ member _ => offered.quiet member
  begun r found := by simp [offered.recv] at found
  whole _ r found := by simp [offered.recv] at found

theorem owned (offered : s.Offered source asked owner) (owns : s.owns) : owner := by
  rcases owns with valid | hosted | ⟨m, member, -⟩
  · obtain ⟨m, member, valid⟩ := List.countP_pos_iff.mp (Nat.pos_of_ne_zero valid)
    rcases offered.down m member with rfl | ⟨here, -⟩
    · cases valid
    · exact here
  · exact absurd offered.host hosted
  · simp [offered.up] at member

theorem left (offered : s.Offered source asked owner) (left : s.left rest) : rest = source := by
  rcases left with ⟨names, valid⟩ | ⟨H, found, -⟩ | ⟨ended, -⟩
  · rcases offered.down _ valid with same | ⟨-, same⟩
    · cases same
    · cases same
      rfl
  · simp [offered.host] at found
  · simp [offered.up] at ended

end Party.Offered

theorem grant_offered (blank : (x.side d).Blank) :
    ((x.grant c source asked).side d).Offered source asked (d = c) where
  host := blank.host
  recv := blank.recv
  up := blank.up
  valids := by
    rw [Party.valids, grant_down, blank.down]
    grind [Down.isValid]
  asks := by
    rw [Party.asks, grant_down, blank.down]
    grind [Down.isRequest]
  down m member := by
    rw [grant_down, blank.down] at member
    grind

/-- A file that nobody knows of may be offered. -/
theorem Exchange.Sound.grant (sound : x.Sound) (live : x.live c = true)
    (blank : ∀ d, x.live d = true → (x.side d).Blank) : (x.grant c source asked).Sound := by
  have offered {d : Client} (here : x.live d = true) :
      ((x.grant c source asked).side d).Offered source asked (d = c) := grant_offered (blank d here)
  have awaits {d : Client} (awaited : (x.grant c source asked).awaited d) :
      x.live d = true ∧ asked (x.name d) = true := by
    obtain ⟨here, named, -⟩ := grant_row (by rw [awaited.1]; nofun)
    exact ⟨here, named⟩
  have gets {d : Client} {r : Recv Byte} (found : ((x.grant c source asked).side d).recv = some r)
      (gets : (x.grant c source asked).row d = .accepted ∨ (x.grant c source asked).awaited d) :
      False := by
    have here : x.live d = true := by
      rcases gets with accepted | awaited
      · exact (grant_row (by rw [accepted]; nofun)).1
      · exact (awaits awaited).1
    rw [(offered here).recv] at found
    cases found
  refine ⟨?_, sound.apart, ?_, ?_, ?_, ?_, ?_, ?_, ?_, ?_, ?_, ?_, ?_⟩
  · intro d
    cases here : x.live d with
    | true => exact (offered here).sound
    | false =>
      rw [grant_dead live here]
      exact sound.side d
  · intro d dead
    simp [Exchange.grant, show x.live d = false from dead]
  · intro d pending
    by_cases row : (x.grant c source asked).row d = .none
    · exact .inl row
    · exact .inr (grant_row row).2.2
  · exact fun d e here one also two => ((offered here).owned one).trans ((offered also).owned two).symm
  · intro d e here ended
    cases (offered here).quiet ended
  · exact fun d e _ here => ⟨by simp [(offered here).up], by simp [(offered here).host]⟩
  · intro d e H _ here found
    rw [(offered here).host] at found
    cases found
  · intro d e other names awaited here valid
    rcases (offered here).down _ valid with same | ⟨-, same⟩
    · cases same
    · cases same
      exact (awaits awaited).2
  · intro d e _ here answer
    rcases (offered here).down _ answer with same | ⟨-, same⟩
    · cases same
    · cases same
  · intro d e rest other awaited request here holds
    rcases (offered (awaits awaited).1).down _ request with same | ⟨-, same⟩
    · cases same
      exact (offered here).left holds
    · cases same
  · exact fun d e rest r getting found => (gets found getting).elim
  · exact fun d e r getting found => (gets found getting).elim

end Grant

theorem Step.sound (sound : x.Sound) (step : Step x y) : y.Sound := by
  cases step with
  | move moves => exact moves.sound sound
  | relay live first => exact sound.relay live first
  | grant live blank source asked => exact sound.grant live blank

theorem Steps.sound (steps : Steps x y) (sound : x.Sound) : y.Sound := by
  induction steps with
  | refl => exact sound
  | tail _ step ih => exact step.sound ih

/-- Steps of one client are steps of the whole. -/
theorem ClientSteps.steps {s s' : Party Id Byte} (turns : ClientSteps s s') (here : x.side c = s) :
    Steps x (x.withSide c s') := by
  induction turns with
  | refl =>
    rw [← here, Exchange.withSide, update_eq_self]
  | @tail s₁ s₂ _ turn ih =>
    refine ih.tail (.move ?_)
    have next := Move.client (x := x.withSide c s₁) c (by rwa [Exchange.withSide_side, if_pos rfl])
    rwa [Exchange.withSide, Exchange.withSide, update_idem] at next

end Quickshare.Relay
