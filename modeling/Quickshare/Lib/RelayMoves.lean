import Quickshare.Lib.RelayParties

/-! Every step of a client or of the server keeps all sides in agreement. -/

namespace Quickshare.Relay

open Function

universe u v w

variable {Client : Type u} {Id : Type v} {Byte : Type w}

/-- What a step of the server does to one side: it may take a message without bytes,
and it sends answers or the end of the file. -/
structure Fed (s s' : Party Id Byte) : Prop where
  host : s'.host = s.host
  recv : s'.recv = s.recv
  up : s'.up = s.up ∨ ∃ m, s.up = m :: s'.up ∧ m.bytes = []
  down : ∃ more, s'.down = s.down ++ more ∧ (more = [.complete] ∨ ∃ ids : List Id, more = ids.map .answer)

namespace Fed

variable {s s' : Party Id Byte}

theorem refl (s : Party Id Byte) : Fed s s :=
  ⟨rfl, rfl, .inl rfl, [], (List.append_nil _).symm, .inr ⟨[], rfl⟩⟩

theorem upward (fed : Fed s s') (member : m ∈ s'.up) : m ∈ s.up := by
  rcases fed.up with same | ⟨first, taken, -⟩
  · rwa [same] at member
  · rw [taken]
    exact List.mem_cons_of_mem _ member

theorem replies (fed : Fed s s') : s'.replies ≤ s.replies := by
  simp only [Party.replies]
  rcases fed.up with same | ⟨first, taken, -⟩
  · exact Nat.le_of_eq (congrArg _ same)
  · rw [taken, List.countP_cons]
    omega

theorem asks (fed : Fed s s') : s'.asks = s.asks := by
  obtain ⟨more, grown, rfl | ⟨ids, rfl⟩⟩ := fed.down
  · simp [Party.asks, grown, Down.isRequest]
  · rw [Party.asks, grown, List.countP_append, answers_requests, Nat.add_zero, Party.asks]

theorem valids (fed : Fed s s') : s'.valids = s.valids := by
  obtain ⟨more, grown, rfl | ⟨ids, rfl⟩⟩ := fed.down
  · simp [Party.valids, grown, Down.isValid]
  · rw [Party.valids, grown, List.countP_append, answers_valids, Nat.add_zero, Party.valids]

theorem early (fed : Fed s s') : s'.early = s.early := by
  simp only [Party.early, fed.recv]

theorem unanswered (fed : Fed s s') (pending : s'.unanswered) : s.unanswered := by
  have fewer := fed.replies
  simp only [Party.unanswered, fed.asks, fed.early] at *
  omega

theorem owns (fed : Fed s s') (owns : s'.owns) : s.owns := by
  simp only [Party.owns, fed.valids, fed.host] at *
  rcases owns with valid | hosted | ⟨m, member, carries⟩
  · exact .inl valid
  · exact .inr (.inl hosted)
  · exact .inr (.inr ⟨m, fed.upward member, carries⟩)

theorem downward (fed : Fed s s') (member : m ∈ s'.down) :
    m ∈ s.down ∨ m = .complete ∨ ∃ i, m = .answer i := by
  obtain ⟨more, grown, last⟩ := fed.down
  rw [grown] at member
  rcases List.mem_append.mp member with old | new
  · exact .inl old
  · rcases last with rfl | ⟨ids, rfl⟩
    · exact .inr (.inl (List.mem_singleton.mp new))
    · obtain ⟨i, -, rfl⟩ := List.mem_map.mp new
      exact .inr (.inr ⟨i, rfl⟩)

theorem sent (fed : Fed s s') : s'.sent = s.sent := by
  simp only [Party.sent]
  rcases fed.up with same | ⟨first, taken, empty⟩
  · rw [same]
  · rw [taken, List.flatMap_cons, empty, List.nil_append]

theorem coming (fed : Fed s s') : s'.coming = s.coming := by
  obtain ⟨more, grown, rfl | ⟨ids, rfl⟩⟩ := fed.down
  · simp [Party.coming, grown, Down.bytes]
  · simp [Party.coming, grown, answers_bytes]

theorem left (fed : Fed s s') (left : s'.left rest) : s.left rest := by
  rcases left with ⟨asked, valid⟩ | hosted | ⟨ended, none⟩
  · refine .inl ⟨asked, ?_⟩
    rcases fed.downward valid with old | same | ⟨i, same⟩
    · exact old
    · cases same
    · cases same
  · exact .inr (.inl (by rwa [fed.host] at hosted))
  · exact .inr (.inr ⟨fed.upward ended, none⟩)

theorem idle (fed : Fed s s') (idle : s.Idle) : s'.Idle :=
  ⟨fun m member => idle.up m (fed.upward member), fun H found => idle.host H (by rwa [fed.host] at found)⟩

/-- The end of the file is sent to a client that gets the whole of it, and once. -/
theorem sound (fed : Fed s s') (sound : s.Sound)
    (closing : s'.down = s.down ++ [.complete] → ¬ s.unanswered ∧ .complete ∉ s.down ∧
      ∀ r, s.recv = some r → r.early = false → r.written ++ s.coming = r.source) : s'.Sound where
  single := by
    have here := sound.single
    rwa [Party.recvs, ← fed.recv, ← fed.asks] at here
  once := by
    have here := sound.once
    have fewer := fed.replies
    rw [fed.asks, fed.early]
    omega
  quiet pending m member := by
    have before := fed.unanswered pending
    obtain ⟨more, grown, rfl | ⟨ids, rfl⟩⟩ := fed.down
    · exact absurd before (closing grown).1
    · rw [grown] at member
      rcases List.mem_append.mp member with old | new
      · exact sound.quiet before m old
      · obtain ⟨i, -, rfl⟩ := List.mem_map.mp new
        rfl
  unwritten pending r found := sound.unwritten (fed.unanswered pending) r (by rwa [fed.recv] at found)
  valid := by
    have here := sound.valid
    rwa [Party.hosts, ← fed.host, ← fed.valids] at here
  last ended := by
    rw [fed.host, fed.valids]
    exact sound.last (fed.upward ended)
  upOrder := by
    have order := sound.upOrder
    rcases fed.up with same | ⟨m, taken, -⟩
    · rwa [same]
    · rw [taken, List.pairwise_cons] at order
      exact order.2
  downOrder := by
    obtain ⟨more, grown, rfl | ⟨ids, rfl⟩⟩ := fed.down
    · rw [grown]
      exact pairwise_unended sound.downOrder (List.pairwise_singleton ..) (.inl (closing grown).2.1)
    · rw [grown]
      have unended : (ids.map (Down.answer : Id → Down Id Byte)).Pairwise
          fun a b => a = .complete → b.carries = false :=
        List.pairwise_map.mpr (List.pairwise_of_forall fun _ _ same => by cases same)
      refine pairwise_unended sound.downOrder unended (.inr fun b member => ?_)
      obtain ⟨i, -, rfl⟩ := List.mem_map.mp member
      rfl
  begun r found := by
    rw [fed.coming]
    exact sound.begun r (by rwa [fed.recv] at found)
  whole ended r found active := by
    rw [fed.recv] at found
    rw [fed.coming]
    obtain ⟨more, grown, rfl | ⟨ids, rfl⟩⟩ := fed.down
    · exact (closing grown).2.2 r found active
    · rw [grown] at ended
      rcases List.mem_append.mp ended with old | new
      · exact sound.whole old r found active
      · obtain ⟨i, -, same⟩ := List.mem_map.mp new
        cases same

end Fed

section Plain

variable {x : Exchange Client Id Byte} {c h : Client}

theorem Exchange.Sound.live_of_row (sound : x.Sound) (row : x.row c ≠ .none) : x.live c = true := by
  cases live : x.live c with
  | true => rfl
  | false => exact absurd (sound.gone c live) row

theorem Exchange.Sound.live_of_awaited (sound : x.Sound) (awaited : x.awaited c) :
    x.live c = true :=
  sound.live_of_row (by rw [awaited.1]; nofun)

/-- A client that gets a part of the file has not got its end. -/
theorem Exchange.Sound.unended (sound : x.Sound) (live : x.live h = true) (owns : (x.side h).owns)
    (row : x.row c ≠ .none) : .complete ∉ (x.side c).down :=
  fun ended => sound.finished c h (sound.live_of_row row) ended live owns

/-- While parts of the file are on their way the server waits for nobody. -/
theorem Exchange.Sound.settled (sound : x.Sound) (live : x.live h = true)
    (first : (x.side h).up = m :: rest) (carries : m.carries = true) (c : Client) :
    ¬ x.awaited c := by
  intro awaited
  have none := (sound.idle c h awaited live).up m (by simp [first])
  rw [carries] at none
  cases none

theorem Exchange.posts_side (x : Exchange Client Id Byte) (d : Client)
    (more : Client → List (Down Id Byte)) :
    (x.posts more).side d = { x.side d with down := (x.side d).down ++ more d } := rfl

/-- The end of the file finds the whole of it at, or on its way to, those that get it. -/
theorem Exchange.Sound.closing (sound : x.Sound) (first : (x.side h).up = .complete :: rest)
    (live : x.live h = true) (accepted : x.row c = .accepted) :
    ¬ (x.side c).unanswered ∧ .complete ∉ (x.side c).down ∧
      ∀ r, (x.side c).recv = some r → r.early = false →
        r.written ++ (x.side c).coming = r.source := by
  have ended : .complete ∈ (x.side h).up := by simp [first]
  have left : (x.side h).left [] := .inr (.inr ⟨ended, rfl⟩)
  refine ⟨fun pending => ?_, sound.unended live left.owns (by simp [accepted]), fun r found _ => ?_⟩
  · rcases sound.fresh c pending with none | asked
    · simp [none] at accepted
    · simp [asked] at accepted
  · have none : (x.side h).sent = [] := by
      refine List.flatMap_eq_nil_iff.mpr fun m member => ?_
      rw [first] at member
      rcases List.mem_cons.mp member with rfl | later
      · rfl
      · exact Up.bytes_quiet (((sound.side h).completing first).2.2 m later)
    simpa [none] using sound.parts c h [] r (.inl accepted) found live left

/-- A request finds its client awaited, where the client gets the file at all. -/
theorem Exchange.Sound.awaits (sound : x.Sound) (request : .request source ∈ (x.side c).down)
    (gets : x.row c = .accepted ∨ x.awaited c) : x.awaited c := by
  rcases gets with accepted | awaited
  · rcases sound.fresh c (Party.unanswered_of_request request) with none | asked
    · simp [none] at accepted
    · simp [asked] at accepted
  · exact awaited

theorem Exchange.tells_fed (x : Exchange Client Id Byte) (d : Client) (ids : Client → List Id) :
    Fed (x.side d) ((x.posts fun e => (ids e).map .answer).side d) :=
  ⟨rfl, rfl, .inl rfl, _, rfl, .inr ⟨ids d, rfl⟩⟩

/-- Nothing is known of a file before it is offered. -/
theorem Exchange.Sound.start (blank : ∀ d, (x.side d).Blank) (row : ∀ d, x.row d = .none)
    (apart : ∀ c d, x.live c = true → x.live d = true → x.name c = x.name d → c = d) : x.Sound := by
  have awaits {d : Client} : ¬ x.awaited d := fun awaited => (blank d).answered awaited.2
  refine ⟨fun d => (blank d).sound, apart, fun d _ => row d, fun d _ => .inl (row d), ?_, ?_, ?_, ?_,
    ?_, ?_, ?_, ?_, ?_⟩
  · exact fun d e _ owns => absurd owns (blank d).foreign
  · exact fun d e _ _ _ => (blank e).foreign
  · exact fun d e awaited => absurd awaited awaits
  · exact fun d e H awaited => absurd awaited awaits
  · exact fun d e source asked awaited => absurd awaited awaits
  · exact fun d e awaited => absurd awaited awaits
  · exact fun d e rest source awaited => absurd awaited awaits
  · intro d e rest r _ found
    rw [(blank d).recv] at found
    cases found
  · intro d e r _ found
    rw [(blank d).recv] at found
    cases found

end Plain

section Sides

variable [DecidableEq Client] (x : Exchange Client Id Byte) (c d : Client)

namespace Exchange

theorem withSide_side (s : Party Id Byte) :
    (x.withSide c s).side d = if d = c then s else x.side d :=
  update_apply ..

theorem takes_side (rest : List (Up Byte)) :
    (x.takes c rest).side d = if d = c then { x.side c with up := rest } else x.side d :=
  x.withSide_side c d _

theorem takes_fed (first : (x.side c).up = m :: rest) (empty : m.bytes = []) :
    Fed (x.side d) ((x.takes c rest).side d) := by
  rw [takes_side]
  split
  · rename_i same
    subst same
    exact ⟨rfl, rfl, .inr ⟨m, first, empty⟩, [], (List.append_nil _).symm, .inr ⟨[], rfl⟩⟩
  · exact .refl _

theorem takes_down (rest : List (Up Byte)) :
    ((x.takes c rest).side d).down = (x.side d).down := by
  rw [takes_side]
  split
  · rename_i same
    rw [same]
  · rfl

theorem ends_fed (first : (x.side c).up = .complete :: rest) {more : Client → List (Down Id Byte)}
    (told : more d = [] ∨ more d = [.complete]) :
    Fed (x.side d) (((x.takes c rest).posts more).side d) := by
  have fed := x.takes_fed c d first rfl
  refine ⟨fed.host, fed.recv, fed.up, more d, ?_, ?_⟩
  · rw [Exchange.posts_side, x.takes_down c d]
  · rcases told with none | one
    · exact .inr ⟨[], none⟩
    · exact .inl one

end Exchange

end Sides

section Moves

variable [DecidableEq Client] {x y : Exchange Client Id Byte} {c d h : Client}

/-- A step is one of the client's own, or the server's to many. -/
theorem Move.sides (move : Move x y) (d : Client) :
    ClientStep (x.side d) (y.side d) ∨ Fed (x.side d) (y.side d) := by
  cases move with
  | client c turn =>
    rw [Exchange.withSide_side]
    split
    · rename_i same
      subst same
      exact .inl turn
    · exact .inr (.refl _)
  | records first => exact .inr (x.takes_fed _ d first rfl)
  | ends first live more told => exact .inr (x.ends_fed _ d first ((told d).imp_right And.right))
  | drops first other => exact .inr (x.takes_fed _ d first other)
  | tells ids settled => exact .inr (x.tells_fed d ids)
  | forgets row fewer => exact .inr (.refl _)
  | leaves c => exact .inr (.refl _)
  | enters new blank i row apart => exact .inr (.refl _)

theorem Move.unanswered (sound : x.Sound) (move : Move x y) (pending : (y.side d).unanswered) :
    (x.side d).unanswered := by
  rcases move.sides d with turn | fed
  · exact turn.unanswered (sound.side d) pending
  · exact fed.unanswered pending

theorem Move.owns (move : Move x y) (owns : (y.side d).owns) : (x.side d).owns := by
  rcases move.sides d with turn | fed
  · exact turn.owns owns
  · exact fed.owns owns

/-- Who is connected was before, or has nothing of the file. -/
theorem Move.live (move : Move x y) (live : y.live d = true) :
    x.live d = true ∨ (x.side d).Blank ∧ y.side d = x.side d := by
  cases move with
  | leaves c =>
    by_cases same : d = c
    · simp [same] at live
    · exact .inl (by simpa [same] using live)
  | @enters c new blank i row apart =>
    by_cases same : d = c
    · subst same
      exact .inr ⟨blank, rfl⟩
    · exact .inl (by simpa [same] using live)
  | _ => exact .inl live

theorem Move.live_of_owns (move : Move x y) (live : y.live d = true) (owns : (y.side d).owns) :
    x.live d = true ∧ (x.side d).owns := by
  refine ⟨?_, move.owns owns⟩
  rcases move.live live with before | ⟨blank, same⟩
  · exact before
  · exact absurd (move.owns owns) blank.foreign

/-- A client keeps its name. -/
theorem Move.name (move : Move x y) (live : x.live c = true) : y.name c = x.name c := by
  cases move with
  | @enters d new blank i row apart =>
    have other : c ≠ d := by
      rintro rfl
      rw [live] at new
      cases new
    simp [other]
  | _ => rfl

/-- What is recorded of a client that has still to answer is so no longer. -/
theorem Move.row (sound : x.Sound) (move : Move x y) (pending : (y.side d).unanswered) :
    y.row d = x.row d ∨ y.row d = .none := by
  cases move with
  | @records c rest accept first =>
    by_cases same : d = c
    · subst same
      have once := (sound.side d).once
      have gone : ¬ ((x.takes d rest).side d).unanswered := by
        rw [Exchange.takes_side, if_pos rfl]
        simp only [Party.unanswered, Party.asks, Party.early, Party.replies, first,
          List.countP_cons, Up.isReply, if_true] at once ⊢
        omega
      exact absurd pending gone
    · exact .inl (by simp [same])
  | forgets row fewer => exact fewer d
  | leaves c =>
    by_cases same : d = c
    · exact .inr (by simp [same])
    · exact .inl (by simp [same])
  | @enters c new blank i row apart =>
    by_cases same : d = c
    · subst same
      exact absurd pending blank.answered
    · exact .inl (by simp [same])
  | _ => exact .inl rfl

/-- Only a grant lets the server wait for another answer. -/
theorem Move.awaited (sound : x.Sound) (move : Move x y) (awaited : y.awaited c) : x.awaited c := by
  refine ⟨?_, move.unanswered sound awaited.2⟩
  rcases move.row sound awaited.2 with same | none
  · rw [← same]
    exact awaited.1
  · rw [awaited.1] at none
    cases none

theorem Move.stream (sound : x.Sound) (move : Move x y) (left : (y.side h).left rest) :
    ∃ before, (x.side h).left before ∧ (x.side h).sent ++ before = (y.side h).sent ++ rest := by
  rcases move.sides h with turn | fed
  · exact turn.stream (sound.side h) left
  · exact ⟨rest, fed.left left, by rw [fed.sent]⟩

theorem Move.sending (move : Move x y) (h : Client) :
    (y.side h).sent = (x.side h).sent ∨ ∃ rest, (y.side h).left rest := by
  rcases move.sides h with turn | fed
  · exact turn.sending
  · exact .inl fed.sent

theorem Move.arrives (sound : x.Sound) (move : Move x y) (found : (y.side c).recv = some r) :
    (∃ was, (x.side c).recv = some was ∧ was.source = r.source ∧
      was.written ++ (x.side c).coming = r.written ++ (y.side c).coming) ∨
    (.request r.source ∈ (x.side c).down ∧ r.written ++ (y.side c).coming = []) := by
  rcases move.sides c with turn | fed
  · rcases turn.arrives (sound.side c) found with ⟨was, held, source, -, kept⟩ | ⟨request, -, none⟩
    · exact .inl ⟨was, held, source, kept⟩
    · exact .inr ⟨request, none⟩
  · exact .inl ⟨r, by rwa [fed.recv] at found, rfl, by rw [fed.coming]⟩

/-- A client that holds something of the file and gets it, or may get it. -/
theorem Move.gets (sound : x.Sound) (move : Move x y) (found : (y.side c).recv = some r)
    (gets : y.row c = .accepted ∨ y.awaited c) : x.row c = .accepted ∨ x.awaited c := by
  rcases gets with accepted | awaited
  · cases move with
    | @records d rest accept first =>
      by_cases same : c = d
      · subst same
        have pending : (x.side c).unanswered :=
          Party.unanswered_of_reply (by rw [first]; exact List.mem_cons_self)
        rcases sound.fresh c pending with none | asked
        · simp [none] at accepted
        · exact .inr ⟨asked, pending⟩
      · exact .inl (by simpa [same] using accepted)
    | forgets row fewer =>
      rcases fewer c with same | none
      · exact .inl (by rw [← same]; exact accepted)
      · rw [show row c = .accepted from accepted] at none
        cases none
    | leaves d =>
      by_cases same : c = d
      · simp [same] at accepted
      · exact .inl (by simpa [same] using accepted)
    | @enters d new blank i row apart =>
      by_cases same : c = d
      · subst same
        have none := blank.recv
        rw [show (x.side c).recv = some r from found] at none
        cases none
      · exact .inl (by simpa [same] using accepted)
    | _ => exact .inl accepted
  · exact .inr (move.awaited sound awaited)

/-- The end of the file comes from the owner. -/
theorem Move.ended (move : Move x y) (ended : .complete ∈ (y.side c).down) :
    .complete ∈ (x.side c).down ∨ ∃ k rest more, (x.side k).up = .complete :: rest ∧
      x.live k = true ∧ x.row c = .accepted ∧ y = (x.takes k rest).posts more ∧
      ∀ d, more d = [] ∨ more d = [.complete] := by
  cases move with
  | client d turn =>
    rw [Exchange.withSide_side] at ended
    split at ended
    · rename_i same
      subst same
      exact .inl (turn.down ended)
    · exact .inl ended
  | @ends k rest first live more told =>
    rw [Exchange.posts_side, x.takes_down k c] at ended
    rcases List.mem_append.mp ended with old | new
    · exact .inl old
    · rcases told c with none | ⟨accepted, -⟩
      · simp [none] at new
      · exact .inr ⟨k, rest, more, first, live, accepted, rfl, fun d => (told d).imp_right And.right⟩
  | tells ids settled =>
    rcases List.mem_append.mp ended with old | new
    · exact .inl old
    · obtain ⟨i, -, same⟩ := List.mem_map.mp new
      cases same
  | records first => exact .inl (by rwa [x.takes_down] at ended)
  | drops first other => exact .inl (by rwa [x.takes_down] at ended)
  | _ => exact .inl ended

/-- The server tells of clients it does not wait for. -/
theorem Move.told (move : Move x y) (answer : .answer i ∈ (y.side h).down) :
    .answer i ∈ (x.side h).down ∨ ∀ e, x.name e = i → ¬ x.awaited e := by
  cases move with
  | client d turn =>
    rw [Exchange.withSide_side] at answer
    split at answer
    · rename_i same
      subst same
      exact .inl (turn.down answer)
    · exact .inl answer
  | @ends k rest first live more told =>
    rw [Exchange.posts_side, x.takes_down k h] at answer
    rcases List.mem_append.mp answer with old | new
    · exact .inl old
    · rcases told h with none | ⟨-, one⟩
      · simp [none] at new
      · simp [one] at new
  | tells ids settled =>
    rcases List.mem_append.mp answer with old | new
    · exact .inl old
    · obtain ⟨j, member, same⟩ := List.mem_map.mp new
      cases same
      exact .inr (settled h i member)
  | records first => exact .inl (by rwa [x.takes_down] at answer)
  | drops first other => exact .inl (by rwa [x.takes_down] at answer)
  | _ => exact .inl answer

/-- A message without bytes may be taken from any side. -/
theorem Exchange.Sound.takes (sound : x.Sound) (first : (x.side c).up = m :: rest)
    (empty : m.bytes = []) (d : Client) : ((x.takes c rest).side d).Sound := by
  refine (x.takes_fed c d first empty).sound (sound.side d) fun grown => ?_
  rw [x.takes_down c d] at grown
  simp at grown

theorem Move.side (sound : x.Sound) (move : Move x y) (c : Client) : (y.side c).Sound := by
  cases move with
  | client d turn =>
    rw [Exchange.withSide_side]
    split
    · exact turn.sound (sound.side d)
    · exact sound.side c
  | @ends k rest first live more told =>
    refine (x.ends_fed k c first ((told c).imp_right And.right)).sound (sound.side c) fun grown => ?_
    rcases told c with none | ⟨accepted, -⟩
    · rw [Exchange.posts_side, x.takes_down k c, none] at grown
      simp at grown
    · exact sound.closing first live accepted
  | tells ids settled =>
    refine (x.tells_fed c ids).sound (sound.side c) fun grown => ?_
    have same : (ids c).map Down.answer = [.complete] := List.append_cancel_left grown
    cases told : ids c with
    | nil => simp [told] at same
    | cons i rest => simp [told] at same
  | records first => exact sound.takes first rfl c
  | drops first other => exact sound.takes first other c
  | _ => exact sound.side c

theorem Move.apart (sound : x.Sound) (move : Move x y) (c d : Client) (live : y.live c = true)
    (alive : y.live d = true) (same : y.name c = y.name d) : c = d := by
  have here := sound.apart c d
  cases move with
  | leaves k =>
    simp only [update_apply] at live alive
    grind
  | enters new blank i row apart =>
    simp only [update_apply] at live alive same
    grind
  | _ => exact here live alive same

theorem Move.gone (sound : x.Sound) (move : Move x y) (c : Client) (dead : y.live c = false) :
    y.row c = .none := by
  have here := sound.gone c
  cases move with
  | client d turn => exact here dead
  | ends first live more told => exact here dead
  | drops first other => exact here dead
  | tells ids settled => exact here dead
  | records first =>
    simp only [update_apply]
    grind [Exchange.takes, Exchange.withSide]
  | forgets row fewer => grind
  | _ =>
    simp only [update_apply] at *
    grind

theorem Move.fresh (sound : x.Sound) (move : Move x y) (c : Client)
    (pending : (y.side c).unanswered) : y.row c = .none ∨ y.row c = .asked := by
  rcases move.row sound pending with same | none
  · rw [same]
    exact sound.fresh c (move.unanswered sound pending)
  · exact .inl none

theorem Move.own (sound : x.Sound) (move : Move x y) (c d : Client) (live : y.live c = true)
    (owns : (y.side c).owns) (alive : y.live d = true) (other : (y.side d).owns) : c = d := by
  obtain ⟨before, owned⟩ := move.live_of_owns live owns
  obtain ⟨was, held⟩ := move.live_of_owns alive other
  exact sound.own c d before owned was held

theorem Move.finished (sound : x.Sound) (move : Move x y) (c h : Client) (live : y.live c = true)
    (ended : .complete ∈ (y.side c).down) (alive : y.live h = true) : ¬ (y.side h).owns := by
  intro owns
  obtain ⟨before, owned⟩ := move.live_of_owns alive owns
  rcases move.ended ended with old | ⟨k, rest, more, first, sends, -, rfl, told⟩
  · rcases move.live live with was | ⟨blank, -⟩
    · exact sound.finished c h was old before owned
    · rw [blank.down] at old
      cases old
  · -- The end has left the owner, and with it all that was there of the file.
    have token : (x.side k).owns := .inr (.inr ⟨_, by rw [first]; exact List.mem_cons_self, rfl⟩)
    obtain rfl : h = k := sound.own h k before owned sends token
    obtain ⟨none, granted, others⟩ := (sound.side h).completing first
    have fed := x.ends_fed h h first (told h)
    rcases owns with valids | hosted | ⟨m, member, carries⟩
    · exact valids (fed.valids.trans granted)
    · exact hosted (fed.host.trans none)
    · have inside : m ∈ rest := by
        rwa [Exchange.posts_side, Exchange.takes_side, if_pos rfl] at member
      rw [others m inside] at carries
      cases carries

/-- The owner is active only once it waits for nobody. -/
theorem Move.idle (sound : x.Sound) (move : Move x y) (c h : Client) (awaited : y.awaited c)
    (live : y.live h = true) : (y.side h).Idle := by
  have before := move.awaited sound awaited
  rcases move.live live with was | ⟨blank, same⟩
  · have idle := sound.idle c h before was
    rcases move.sides h with turn | fed
    · exact turn.idle idle (sound.heard c h before was) fun H => sound.waits c h H before was
    · exact fed.idle idle
  · rw [same]
    exact blank.idle

theorem Move.waits (sound : x.Sound) (move : Move x y) (c h : Client) (H : Host Id Byte)
    (awaited : y.awaited c) (live : y.live h = true) (found : (y.side h).host = some H) :
    H.waits (y.name c) = true := by
  have before := move.awaited sound awaited
  rw [move.name (sound.live_of_awaited before)]
  rcases move.live live with was | ⟨blank, same⟩
  · have waits := fun K => sound.waits c h K before was
    rcases move.sides h with turn | fed
    · exact turn.waits (sound.heard c h before was)
        (fun source asked => sound.asked c h source asked before was) waits found
    · exact waits H (by rwa [fed.host] at found)
  · rw [same, blank.host] at found
    cases found

theorem Move.asked (sound : x.Sound) (move : Move x y) (c h : Client) (source : List Byte)
    (asked : Id → Bool) (awaited : y.awaited c) (live : y.live h = true)
    (valid : .valid source asked ∈ (y.side h).down) : asked (y.name c) = true := by
  have before := move.awaited sound awaited
  rw [move.name (sound.live_of_awaited before)]
  rcases move.live live with was | ⟨blank, same⟩
  · refine sound.asked c h source asked before was ?_
    rcases move.sides h with turn | fed
    · exact turn.down valid
    · rcases fed.downward valid with old | same | ⟨i, same⟩
      · exact old
      · cases same
      · cases same
  · rw [same, blank.down] at valid
    cases valid

theorem Move.heard (sound : x.Sound) (move : Move x y) (c h : Client) (awaited : y.awaited c)
    (live : y.live h = true) : .answer (y.name c) ∉ (y.side h).down := by
  intro answer
  have before := move.awaited sound awaited
  rw [move.name (sound.live_of_awaited before)] at answer
  rcases move.told answer with old | settled
  · rcases move.live live with was | ⟨blank, -⟩
    · exact sound.heard c h before was old
    · rw [blank.down] at old
      cases old
  · exact settled c rfl before

theorem Move.offered (sound : x.Sound) (move : Move x y) (c h : Client) (rest source : List Byte)
    (awaited : y.awaited c) (request : .request source ∈ (y.side c).down) (live : y.live h = true)
    (left : (y.side h).left rest) : rest = source := by
  have before := move.awaited sound awaited
  obtain ⟨was, holds, same⟩ := move.stream sound left
  obtain ⟨alive, -⟩ := move.live_of_owns live left.owns
  have asked : .request source ∈ (x.side c).down := by
    rcases move.sides c with turn | fed
    · exact turn.down request
    · rcases fed.downward request with old | same | ⟨i, same⟩
      · exact old
      · cases same
      · cases same
  rw [(sound.idle c h before alive).unsent, (move.idle sound c h awaited live).unsent] at same
  exact same.symm.trans (sound.offered c h was source before asked alive holds)

theorem Move.parts (sound : x.Sound) (move : Move x y) (c h : Client) (rest : List Byte)
    (r : Recv Byte) (gets : y.row c = .accepted ∨ y.awaited c) (found : (y.side c).recv = some r)
    (live : y.live h = true) (left : (y.side h).left rest) :
    r.written ++ (y.side c).coming ++ (y.side h).sent ++ rest = r.source := by
  obtain ⟨was, holds, same⟩ := move.stream sound left
  obtain ⟨alive, -⟩ := move.live_of_owns live left.owns
  have before := move.gets sound found gets
  rcases move.arrives sound found with ⟨s, held, source, kept⟩ | ⟨request, none⟩
  · have parts := sound.parts c h was s before held alive holds
    rw [List.append_assoc, ← same, ← kept, ← source, ← parts]
    simp
  · have awaited := sound.awaits request before
    rw [none, List.nil_append, ← same, (sound.idle c h awaited alive).unsent]
    exact sound.offered c h was r.source awaited request alive holds

theorem Move.goes (sound : x.Sound) (move : Move x y) (c h : Client) (r : Recv Byte)
    (gets : y.row c = .accepted ∨ y.awaited c) (found : (y.side c).recv = some r)
    (live : y.live h = true) :
    r.written ++ (y.side c).coming ++ (y.side h).sent <+: r.source := by
  have begun := (move.side sound c).begun r found
  rcases move.sending h with same | ⟨rest, left⟩
  · rcases move.live live with alive | ⟨blank, -⟩
    · have before := move.gets sound found gets
      rcases move.arrives sound found with ⟨s, held, source, kept⟩ | ⟨request, none⟩
      · rw [← kept, ← source, same]
        exact sound.goes c h s before held alive
      · have awaited := sound.awaits request before
        rw [none, same, (sound.idle c h awaited alive).unsent]
        exact List.nil_prefix
    · rwa [same, blank.idle.unsent, List.append_nil]
  · rw [← move.parts sound c h rest r gets found live left]
    exact List.prefix_append _ _

/-- Every such step keeps the sides in agreement. -/
theorem Move.sound (sound : x.Sound) (move : Move x y) : y.Sound where
  side := move.side sound
  apart := move.apart sound
  gone := move.gone sound
  fresh := move.fresh sound
  own := move.own sound
  finished := move.finished sound
  idle := move.idle sound
  waits := move.waits sound
  asked := move.asked sound
  heard := move.heard sound
  offered := move.offered sound
  parts := move.parts sound
  goes := move.goes sound

end Moves

end Quickshare.Relay
