import Quickshare.Lib.Relay

/-! What one client can tell of a relayed file by itself, over its own steps and over
what it is sent. -/

namespace Quickshare.Relay

universe u v w

variable {Id : Type v} {Byte : Type w}

theorem answers_requests (ids : List Id) :
    (ids.map (Down.answer : Id → Down Id Byte)).countP Down.isRequest = 0 := by
  rw [List.countP_map]
  exact List.countP_eq_zero.mpr fun _ _ => nofun

theorem answers_valids (ids : List Id) :
    (ids.map (Down.answer : Id → Down Id Byte)).countP Down.isValid = 0 := by
  rw [List.countP_map]
  exact List.countP_eq_zero.mpr fun _ _ => nofun

theorem answers_bytes (ids : List Id) :
    (ids.map (Down.answer : Id → Down Id Byte)).flatMap Down.bytes = [] := by
  induction ids with
  | nil => rfl
  | cons i rest ih => exact ih

/-- Only data have bytes. -/
theorem Up.bytes_quiet {m : Up Byte} (quiet : m.carries = false) : m.bytes = [] := by
  cases m with
  | reply accept => rfl
  | _ => cases quiet

theorem Down.bytes_quiet {m : Down Id Byte} (quiet : m.carries = false) : m.bytes = [] := by
  cases m with
  | data bytes => cases quiet
  | _ => rfl

/-- Where the end of the file comes only last, what is sent behind it is no part of it. -/
theorem pairwise_unended {first second : List (Down Id Byte)}
    (before : first.Pairwise fun a b => a = .complete → b.carries = false)
    (after : second.Pairwise fun a b => a = .complete → b.carries = false)
    (none : .complete ∉ first ∨ ∀ b ∈ second, b.carries = false) :
    (first ++ second).Pairwise fun a b => a = .complete → b.carries = false := by
  refine List.pairwise_append.mpr ⟨before, after, fun a old b new same => ?_⟩
  rcases none with none | quiet
  · exact absurd (same ▸ old) none
  · exact quiet b new

namespace Party

variable {s : Party Id Byte}

theorem valids_pos (valid : .valid source asked ∈ s.down) : s.valids ≠ 0 :=
  Nat.pos_iff_ne_zero.mp (List.countP_pos_iff.mpr ⟨_, valid, rfl⟩)

theorem unanswered_of_request (request : .request source ∈ s.down) : s.unanswered := by
  have one : 0 < s.asks := List.countP_pos_iff.mpr ⟨_, request, rfl⟩
  simp only [unanswered]
  omega

theorem unanswered_of_early (found : s.recv = some r) (early : r.early = true) : s.unanswered := by
  have one : s.early = 1 := by simp [Party.early, found, early]
  simp only [unanswered]
  omega

theorem unanswered_of_reply (reply : .reply accept ∈ s.up) : s.unanswered := by
  have one : 0 < s.replies := List.countP_pos_iff.mpr ⟨_, reply, rfl⟩
  simp only [unanswered]
  omega

theorem left.owns (left : s.left rest) : s.owns := by
  rcases left with ⟨asked, valid⟩ | ⟨H, found, -⟩ | ⟨ended, -⟩
  · exact .inl (valids_pos valid)
  · exact .inr (.inl (by simp [found]))
  · exact .inr (.inr ⟨_, ended, rfl⟩)

theorem Idle.unsent (idle : s.Idle) : s.sent = [] :=
  List.flatMap_eq_nil_iff.mpr fun m member => Up.bytes_quiet (idle.up m member)

theorem Blank.answered (blank : s.Blank) : ¬ s.unanswered := by
  simp [unanswered, asks, early, replies, blank.recv, blank.up, blank.down]

theorem Blank.foreign (blank : s.Blank) : ¬ s.owns := by
  simp [owns, valids, blank.host, blank.up, blank.down]

theorem Blank.idle (blank : s.Blank) : s.Idle :=
  ⟨by simp [blank.up], by simp [blank.host]⟩

theorem Blank.sound (blank : s.Blank) : s.Sound where
  single := by simp [asks, recvs, blank.down, blank.recv]
  once := by simp [asks, early, replies, blank.down, blank.recv, blank.up]
  quiet := by simp [blank.down]
  unwritten := by simp [blank.recv]
  valid := by simp [valids, hosts, blank.down, blank.host]
  last := by simp [blank.up]
  upOrder := by simp [blank.up]
  downOrder := by simp [blank.down]
  begun := by simp [blank.recv]
  whole := by simp [blank.down]

namespace Sound

/-- Nothing of the file is on its way to a client that has not answered. -/
theorem uncoming (sound : s.Sound) (pending : s.unanswered) : s.coming = [] :=
  List.flatMap_eq_nil_iff.mpr fun m member => Down.bytes_quiet (sound.quiet pending m member)

/-- Behind the end of the file the owner sends no part of it. -/
theorem completing (sound : s.Sound) (first : s.up = .complete :: rest) :
    s.host = none ∧ s.valids = 0 ∧ ∀ m ∈ rest, m.carries = false := by
  have last := sound.last (by simp [first])
  have order := sound.upOrder
  rw [first, List.pairwise_cons] at order
  exact ⟨last.1, last.2, fun m member => order.1 m member rfl⟩

/-- What a client holds when it finds the end of the file is the file. -/
theorem finishes (sound : s.Sound) (first : s.down = .complete :: rest)
    (found : s.recv = some r) (active : r.early = false) : r.written = r.source := by
  have whole := sound.whole (by simp [first]) r found active
  have order := sound.downOrder
  rw [first, List.pairwise_cons] at order
  have none : s.coming = [] := by
    refine List.flatMap_eq_nil_iff.mpr fun m member => ?_
    rw [first] at member
    rcases List.mem_cons.mp member with rfl | later
    · rfl
    · exact Down.bytes_quiet (order.1 m later rfl)
  simpa [none] using whole

/-- What a client has stored is the beginning of the file. -/
theorem stored (sound : s.Sound) (found : s.recv = some r) : r.written <+: r.source :=
  (List.prefix_append _ _).trans (sound.begun r found)

/-- No part of the file finds a client that has not answered. -/
theorem expected (sound : s.Sound) (first : s.down = m :: rest) (carries : m.carries = true)
    (found : s.recv = some r) : r.early = false := by
  cases early : r.early with
  | false => rfl
  | true =>
    have quiet := sound.quiet (unanswered_of_early found early) m (by simp [first])
    rw [carries] at quiet
    cases quiet

end Sound

end Party

/-! The client's own steps -/

namespace ClientStep

variable {s s' : Party Id Byte}

theorem unanswered (sound : s.Sound) (turn : ClientStep s s') (pending : s'.unanswered) :
    s.unanswered := by
  have once := sound.once
  have single := sound.single
  simp only [Party.unanswered, Party.asks, Party.early, Party.replies, Party.recvs] at *
  cases turn
  all_goals grind [Up.isReply, Down.isRequest]

theorem owns (turn : ClientStep s s') (owns : s'.owns) : s.owns := by
  simp only [Party.owns, Party.valids] at *
  cases turn
  all_goals grind [Up.carries, Down.isValid]

/-- A client sends nothing to itself. -/
theorem down (turn : ClientStep s s') (member : m ∈ s'.down) : m ∈ s.down := by
  cases turn
  all_goals grind

/-- What the owner has sent or will send is neither more nor less than before. -/
theorem stream (sound : s.Sound) (turn : ClientStep s s') (left : s'.left rest) :
    ∃ before, s.left before ∧ s.sent ++ before = s'.sent ++ rest := by
  have valid := sound.valid
  have last := sound.last
  simp only [Party.hosts] at valid
  rcases left with ⟨asked, waiting⟩ | ⟨H, found, rfl⟩ | ⟨ended, rfl⟩
  · have here := turn.down waiting
    have some := Party.valids_pos here
    refine ⟨rest, .inl ⟨asked, here⟩, ?_⟩
    simp only [Party.sent] at *
    cases turn
    all_goals grind [Up.bytes]
  · simp only [Party.sent] at *
    cases turn with
    | @getsValid rest source asked first =>
      cases found
      exact ⟨source, .inl ⟨asked, by simp [first]⟩, rfl⟩
    | sends was active split =>
      cases found
      exact ⟨_, .inr (.inl ⟨_, was, split⟩), by simp [Up.bytes]⟩
    | _ =>
      simp only [Party.left] at *
      exact ⟨H.rest, by grind, by grind [Up.bytes]⟩
  · refine ⟨[], ?_, ?_⟩
    · simp only [Party.left] at *
      cases turn
      all_goals grind
    · simp only [Party.sent] at *
      cases turn
      all_goals grind [Up.bytes]

/-- What the owner has sent is what it had, or it may still be sending. -/
theorem sending (turn : ClientStep s s') : s'.sent = s.sent ∨ ∃ rest, s'.left rest := by
  simp only [Party.sent, Party.left]
  cases turn with
  | sends found active split => exact .inr ⟨_, .inr (.inl ⟨_, rfl, rfl⟩)⟩
  | _ => exact .inl (by grind [Up.bytes])

/-- What a client has or is to get of the file is what it was before. -/
theorem arrives (sound : s.Sound) (turn : ClientStep s s') (found : s'.recv = some r) :
    (∃ was, s.recv = some was ∧ was.source = r.source ∧ (r.early = true → was.early = true) ∧
      was.written ++ s.coming = r.written ++ s'.coming) ∨
    (.request r.source ∈ s.down ∧ r.early = true ∧ r.written ++ s'.coming = []) := by
  cases turn with
  | @getsRequest rest source first =>
    cases found
    have request : .request source ∈ s.down := by simp [first]
    have none := sound.uncoming (Party.unanswered_of_request request)
    refine .inr ⟨request, rfl, ?_⟩
    simpa [Party.coming, first, Down.bytes] using none
  | @skips m rest first ignores =>
    refine .inl ⟨r, found, rfl, id, ?_⟩
    have empty : m.bytes = [] := by
      cases m with
      | data bytes =>
        have early := ignores rfl r found
        have none := sound.uncoming (Party.unanswered_of_early found early)
        rw [Party.coming, first, List.flatMap_cons] at none
        exact (List.append_eq_nil_iff.mp none).1
      | _ => rfl
    simp [Party.coming, first, empty]
  | _ =>
    simp only [Party.coming] at *
    grind [Down.bytes]

/-- What the owner waits for it still does, unless it has heard of it. -/
theorem waits (turn : ClientStep s s') {i : Id} (unheard : .answer i ∉ s.down)
    (asked : ∀ source asked, .valid source asked ∈ s.down → asked i = true)
    (waits : ∀ H, s.host = some H → H.waits i = true) (found : s'.host = some K) :
    K.waits i = true := by
  cases turn with
  | @hears rest H K other first was same others all =>
    cases found
    have apart : i ≠ other := by
      rintro rfl
      exact unheard (by simp [first])
    rw [others i apart]
    exact waits H was
  | @sends H bytes rest was active split =>
    cases found
    exact waits H was
  | @getsValid rest source names first =>
    cases found
    exact asked source names (by simp [first])
  | _ => grind

/-- The owner is active only once it waits for nobody. -/
theorem idle (turn : ClientStep s s') {i : Id} (idle : s.Idle) (unheard : .answer i ∉ s.down)
    (waits : ∀ H, s.host = some H → H.waits i = true) : s'.Idle := by
  have up := idle.up
  have host := idle.host
  cases turn with
  | @hears rest H K other first was same others all =>
    refine ⟨up, fun L found => ?_⟩
    cases found
    cases active : K.active with
    | false => rfl
    | true =>
      rcases all active with before | none
      · rw [host H was] at before
        cases before
      · have apart : i ≠ other := by
          rintro rfl
          exact unheard (by simp [first])
        have still := waits H was
        rw [← others i apart, none i] at still
        cases still
  | _ => constructor <;> grind [Up.carries]

theorem single (sound : s.Sound) (turn : ClientStep s s') : s'.asks + s'.recvs ≤ 1 := by
  have here := sound.single
  simp only [Party.asks, Party.recvs] at *
  cases turn
  all_goals grind [Down.isRequest]

theorem once (sound : s.Sound) (turn : ClientStep s s') : s'.asks + s'.early + s'.replies ≤ 1 := by
  have here := sound.once
  have single := sound.single
  simp only [Party.asks, Party.early, Party.replies, Party.recvs] at *
  cases turn
  all_goals grind [Up.isReply, Down.isRequest]

theorem quiet (sound : s.Sound) (turn : ClientStep s s') (pending : s'.unanswered) (m : Down Id Byte)
    (member : m ∈ s'.down) : m.carries = false :=
  sound.quiet (turn.unanswered sound pending) m (turn.down member)

theorem unwritten (sound : s.Sound) (turn : ClientStep s s') (pending : s'.unanswered) (r : Recv Byte)
    (found : s'.recv = some r) : r.written = [] := by
  have before := turn.unanswered sound pending
  have none := sound.uncoming before
  rcases turn.arrives sound found with ⟨was, held, -, -, kept⟩ | ⟨-, -, empty⟩
  · rw [sound.unwritten before was held, none] at kept
    exact (List.append_eq_nil_iff.mp kept.symm).1
  · exact (List.append_eq_nil_iff.mp empty).1

theorem valid (sound : s.Sound) (turn : ClientStep s s') : s'.valids + s'.hosts ≤ 1 := by
  have here := sound.valid
  simp only [Party.valids, Party.hosts] at *
  cases turn
  all_goals grind [Down.isValid]

theorem last (sound : s.Sound) (turn : ClientStep s s') (ended : .complete ∈ s'.up) :
    s'.host = none ∧ s'.valids = 0 := by
  have here := sound.last
  have valid := sound.valid
  simp only [Party.valids, Party.hosts] at *
  cases turn
  all_goals grind [Down.isValid]

theorem upOrder (sound : s.Sound) (turn : ClientStep s s') :
    s'.up.Pairwise fun a b => a = .complete → b.carries = false := by
  have here := sound.upOrder
  have last := sound.last
  cases turn
  all_goals grind [Up.carries]

theorem downOrder (sound : s.Sound) (turn : ClientStep s s') :
    s'.down.Pairwise fun a b => a = .complete → b.carries = false := by
  have here := sound.downOrder
  cases turn
  all_goals grind

theorem begun (sound : s.Sound) (turn : ClientStep s s') (r : Recv Byte) (found : s'.recv = some r) :
    r.written ++ s'.coming <+: r.source := by
  rcases turn.arrives sound found with ⟨was, held, source, -, kept⟩ | ⟨-, -, none⟩
  · rw [← kept, ← source]
    exact sound.begun was held
  · rw [none]
    exact List.nil_prefix

theorem whole (sound : s.Sound) (turn : ClientStep s s') (ended : .complete ∈ s'.down) (r : Recv Byte)
    (found : s'.recv = some r) (active : r.early = false) : r.written ++ s'.coming = r.source := by
  have before := turn.down ended
  rcases turn.arrives sound found with ⟨was, held, source, -, kept⟩ | ⟨-, early, -⟩
  · rw [← kept, ← source]
    refine sound.whole before was held ?_
    cases early : was.early with
    | false => rfl
    | true => cases sound.quiet (Party.unanswered_of_early held early) _ before
  · rw [active] at early
    cases early

/-- Every step of a client keeps its side sound. -/
theorem sound (sound : s.Sound) (turn : ClientStep s s') : s'.Sound where
  single := turn.single sound
  once := turn.once sound
  quiet := turn.quiet sound
  unwritten := turn.unwritten sound
  valid := turn.valid sound
  last := turn.last sound
  upOrder := turn.upOrder sound
  downOrder := turn.downOrder sound
  begun := turn.begun sound
  whole := turn.whole sound

end ClientStep

end Quickshare.Relay
