import Quickshare.Client.QueueRuns

/-! The client's queues have one thread that pushes and one that pops. Between these a
call does all its work at the access with which it returns, and the answers are those of a
bounded queue. -/

namespace Quickshare

universe u v

open Fifo Runs Function

variable {Item : Type u} {Thread : Type v}

/-- What a call returns of the answer of a bounded queue. -/
def Returned.of : Op Item → Answer Item → Returned Item
  | _, .put done => .pushed done
  | .look, .got item => .peeked item
  | _, .got item => .popped item.isSome

/-- Only `producer` pushes; only `consumer` looks and pops. -/
def ThreadEvent.plays (producer consumer : Thread) : ThreadEvent Item Thread → Prop
  | .begins thread (.put _) => thread = producer
  | .begins thread _ => thread = consumer
  | .acts _ _ => True

namespace Threads

/-- The places taken by a push that has not let its item be seen. -/
def pending : Option (Call Item) → Nat
  | some (.pushCopy _ _) | some (.pushPublish _ _) => 1
  | _ => 0

/-- The places taken by a pop that has not given them back. -/
def releasing : Option (Call Item) → Nat
  | some (.popRelease _) => 1
  | _ => 0

/-- The items between the two. -/
def items (s : Threads Item Thread) (producer consumer : Thread) : List Item :=
  (s.granted.take (s.queue.tail - pending (s.calls producer))).drop
    (s.queue.head - releasing (s.calls consumer))

/-- Who is in which call, and the places it has loaded are the current ones. -/
def Current (q : LockFreeQueue Item) (producer consumer thread : Thread) : Call Item → Prop
  | .push _ => thread = producer
  | .pushCheck _ tail | .pushSwap _ tail => thread = producer ∧ tail = q.tail
  | .pushCopy _ tail | .pushPublish _ tail => thread = producer ∧ tail + 1 = q.tail
  | .peek | .pop => thread = consumer
  | .peekCheck head | .peekCopy head | .popCheck head | .popSwap head =>
    thread = consumer ∧ head = q.head
  | .popRelease head => thread = consumer ∧ head + 1 = q.head

def AllCurrent (s : Threads Item Thread) (producer consumer : Thread) : Prop :=
  ∀ thread call, s.calls thread = some call → Current s.queue producer consumer thread call

variable {s next : Threads Item Thread} {producer consumer : Thread}

/-- Another thread keeps to its end of the queue. -/
theorem Current.other {q r : LockFreeQueue Item} {thread other : Thread} {call : Call Item}
    (current : Current q producer consumer other call) (different : other ≠ thread)
    (tail : r.tail = q.tail ∨ thread = producer) (head : r.head = q.head ∨ thread = consumer) :
    Current r producer consumer other call := by
  cases call with
  | pushCheck | pushSwap | pushCopy | pushPublish =>
    rcases tail with same | rfl
    · exact ⟨current.1, by rw [same]; exact current.2⟩
    · exact absurd current.1 different
  | peekCheck | peekCopy | popCheck | popSwap | popRelease =>
    rcases head with same | rfl
    · exact ⟨current.1, by rw [same]; exact current.2⟩
    · exact absurd current.1 different
  | _ => exact current

/-- What a call loads is current when it loads it. -/
theorem Current.access {q : LockFreeQueue Item} {thread : Thread} {call next : Call Item}
    {fails : Bool} (current : Current q producer consumer thread call)
    (tail : q.tail + 1 < 2 ^ 64) (head : q.head + 1 < 2 ^ 64)
    (goes : (q.access fails call).2 = .inl next) :
    Current (q.access fails call).1 producer consumer thread next := by
  have nextTail : (q.tail + 1) % 2 ^ 64 = q.tail + 1 := Nat.mod_eq_of_lt tail
  have nextHead : (q.head + 1) % 2 ^ 64 = q.head + 1 := Nat.mod_eq_of_lt head
  cases call with
  | push | peek | pop =>
    cases goes
    exact ⟨current, rfl⟩
  | pushCheck | peekCheck | popCheck =>
    simp only [LockFreeQueue.access] at goes
    split at goes
    · cases goes
    · cases goes
      exact current
  | pushSwap =>
    obtain ⟨role, rfl⟩ := current
    simp only [LockFreeQueue.access] at goes ⊢
    split at goes
    · cases goes
      simp only [if_pos ‹_›]
      exact ⟨role, nextTail.symm⟩
    · cases goes
      simp only [if_neg ‹_›]
      exact ⟨role, rfl⟩
  | popSwap =>
    obtain ⟨role, rfl⟩ := current
    simp only [LockFreeQueue.access] at goes ⊢
    split at goes
    · cases goes
      simp only [if_pos ‹_›]
      exact ⟨role, nextHead.symm⟩
    · cases goes
      simp only [if_neg ‹_›]
      exact ⟨role, rfl⟩
  | pushCopy =>
    cases goes
    exact current
  | _ => cases goes

/-- An item that has been let seen is not the one still being pushed. -/
theorem AllCurrent.seen (current : s.AllCurrent producer consumer) (sound : s.Sound) {t : Nat}
    (here : (s.queue.node t).tail = t) (seen : (s.queue.node t).head = t) :
    t < s.queue.tail - pending (s.calls producer) ∧
      s.granted[t]? = some (s.queue.node t).data := by
  have published := sound.published _ (sound.index_lt t) (by rw [← sound.node_eq, here, seen])
  rw [← sound.node_eq, here] at published
  refine ⟨?_, published.2⟩
  unfold pending
  split
  · rename_i data tail found
    obtain ⟨_, place⟩ := current _ _ found
    have different : t ≠ tail := by
      rintro rfl
      exact (sound.fits _ _ found).2.2.1 seen
    omega
  · rename_i data tail found
    obtain ⟨_, place⟩ := current _ _ found
    have different : t ≠ tail := by
      rintro rfl
      exact (sound.fits _ _ found).2.2.1 seen
    omega
  · exact published.1

/-- Where the oldest place is not filled there is nothing between the two. -/
theorem AllCurrent.empty (current : s.AllCurrent producer consumer) (sound : s.Sound)
    (waiting : releasing (s.calls consumer) = 0)
    (unfilled : (s.queue.node s.queue.head).head ≠ s.queue.head) :
    s.items producer consumer = [] := by
  have order := sound.order
  have count := sound.tail
  have window := sound.window _ (sound.index_lt s.queue.head)
  rw [← sound.node_eq] at window
  suffices none : s.queue.tail - pending (s.calls producer) ≤ s.queue.head by
    rw [items, waiting, List.drop_eq_nil_iff, List.length_take]
    omega
  rcases Nat.eq_or_lt_of_le order with same | less
  · omega
  · have here := sound.at_place window.2 (by omega)
    obtain ⟨thread, data, found⟩ := sound.held _ (sound.index_lt s.queue.head)
      (by rw [← sound.node_eq, here]; exact less)
      (by rw [← sound.node_eq, here]; exact unfilled)
    rw [← sound.node_eq, here] at found
    rcases found with found | found
    · obtain ⟨rfl, place⟩ := current _ _ found
      simp only [found, pending]
      omega
    · obtain ⟨rfl, place⟩ := current _ _ found
      simp only [found, pending]
      omega

/-- What lies between the two fits into the ring. -/
theorem AllCurrent.bounded (current : s.AllCurrent producer consumer) (sound : s.Sound) :
    s.queue.tail ≤ s.queue.head - releasing (s.calls consumer) + s.queue.capacity := by
  unfold releasing
  split
  · rename_i head found
    obtain ⟨_, place⟩ := current _ _ found
    obtain ⟨early, here, _⟩ := sound.fits _ _ found
    have window := sound.window _ (sound.index_lt head)
    rw [← sound.node_eq, here] at window
    omega
  · exact sound.granted_le

/-- A push is refused when a turn of the ring lies between the two. -/
theorem AllCurrent.full (current : s.AllCurrent producer consumer) (sound : s.Sound)
    (none : pending (s.calls producer) = 0)
    (refused : (s.queue.node s.queue.tail).tail ≠ s.queue.tail) :
    (s.items producer consumer).length = s.queue.capacity := by
  have order := sound.order
  have count := sound.tail
  have bounded := current.bounded sound
  have window := sound.window _ (sound.index_lt s.queue.tail)
  have place := sound.place _ (sound.index_lt s.queue.tail)
  have taken := sound.taken _ (sound.index_lt s.queue.tail)
  rw [← sound.node_eq] at window place taken
  have turn : s.queue.tail = (s.queue.node s.queue.tail).tail + s.queue.capacity := by
    rcases Nat.lt_or_ge s.queue.tail ((s.queue.node s.queue.tail).tail + s.queue.capacity)
      with less | most
    · exact absurd (sound.at_place (by omega) less) refused
    · omega
  have early : s.queue.head - releasing (s.calls consumer) ≤ (s.queue.node s.queue.tail).tail := by
    rcases Nat.lt_or_ge (s.queue.node s.queue.tail).tail s.queue.head with less | most
    · obtain ⟨thread, found⟩ := taken less
      obtain ⟨rfl, next⟩ := current _ _ found
      simp only [found, releasing]
      omega
    · omega
  rw [items, none, List.length_drop, List.length_take]
  omega

/-- The answers so far are those of a bounded queue that handles the calls in the order in
which they return, and it holds what lies between the two. -/
def Linear (n : Nat) (s : Threads Item Thread) (producer consumer : Thread) : Prop :=
  let (answers, f) := (Bounded.empty Item n).handle (s.returns.map Prod.fst)
  s.returns.map Prod.snd = List.zipWith Returned.of (s.returns.map Prod.fst) answers ∧
    f.items = s.items producer consumer

theorem Linear.keeps {n : Nat} (linear : Linear n s producer consumer)
    (returns : next.returns = s.returns)
    (items : next.items producer consumer = s.items producer consumer) :
    Linear n next producer consumer := by
  unfold Linear
  rw [returns, items]
  exact linear

theorem Linear.answers {n : Nat} (linear : Linear n s producer consumer) {op : Op Item}
    {r : Returned Item} (returns : next.returns = s.returns ++ [(op, r)])
    (answer : ∀ f : Bounded Item n, f.items = s.items producer consumer →
      r = .of op (f.apply op).1 ∧ (f.apply op).2.items = next.items producer consumer) :
    Linear n next producer consumer := by
  obtain ⟨same, items⟩ := linear
  obtain ⟨result, after⟩ := answer _ items
  unfold Linear
  rw [returns, List.map_append, List.map_append, List.map_singleton, List.map_singleton,
    Bounded.handle_concat]
  refine ⟨?_, after⟩
  rw [List.zipWith_append (by simp [Bounded.handle_length]), same, result]
  rfl

theorem items_length_le (current : s.AllCurrent producer consumer) (sound : s.Sound) :
    (s.items producer consumer).length ≤ s.queue.capacity := by
  have bounded := current.bounded sound
  have count := sound.tail
  rw [items, List.length_drop, List.length_take]
  omega

/-- The oldest of the items. -/
theorem items_cons {t : Nat} {x : Item} (first : t = s.queue.head - releasing (s.calls consumer))
    (inside : t < s.queue.tail - pending (s.calls producer)) (stored : s.granted[t]? = some x) :
    s.items producer consumer =
      x :: (s.granted.take (s.queue.tail - pending (s.calls producer))).drop (t + 1) := by
  have found : (s.granted.take (s.queue.tail - pending (s.calls producer)))[t]? = some x := by
    rw [List.getElem?_take_of_lt inside, stored]
  obtain ⟨less, same⟩ := List.getElem?_eq_some_iff.mp found
  rw [items, ← first, List.drop_eq_getElem_cons less, same]

variable [DecidableEq Thread]

/-- An access moves the end of the queue at which the thread works, if any. -/
theorem act_ends (thread : Thread) (fails : Bool) {call : Call Item}
    (current : Current s.queue producer consumer thread call) :
    ((s.act thread fails call).queue.tail = s.queue.tail ∨ thread = producer) ∧
      ((s.act thread fails call).queue.head = s.queue.head ∨ thread = consumer) := by
  cases call with
  | pushSwap =>
    refine ⟨.inr current.1, .inl ?_⟩
    simp only [act, LockFreeQueue.access]
    split <;> rfl
  | popSwap =>
    refine ⟨.inl ?_, .inr current.1⟩
    simp only [act, LockFreeQueue.access]
    split <;> rfl
  | _ => exact ⟨.inl rfl, .inl rfl⟩

/-- A call that starts has loaded nothing. -/
theorem AllCurrent.begins (current : s.AllCurrent producer consumer) {thread : Thread}
    (op : Op Item) (plays : (ThreadEvent.begins thread op).plays producer consumer) :
    AllCurrent { s with calls := update s.calls thread (some (.start op)) } producer consumer := by
  intro other c there
  by_cases same : other = thread
  · subst same
    cases there.symm.trans (update_self ..)
    cases op <;> exact plays
  · exact current other c (by simpa [same] using there)

/-- Nobody else moves the end of the queue at which a thread works. -/
theorem AllCurrent.step (current : s.AllCurrent producer consumer) (sound : s.Sound)
    (few : s.few) {e : ThreadEvent Item Thread} (plays : e.plays producer consumer)
    (taken : s.step e = .ok next) : next.AllCurrent producer consumer := by
  rcases step_cases taken with ⟨thread, op, rfl, idle, rfl⟩ | ⟨thread, fails, call, rfl, found, rfl⟩
  · exact current.begins op plays
  · have here := current thread call found
    intro other c there
    by_cases same : other = thread
    · subst same
      have count := sound.tail
      have order := sound.order
      have positive := sound.positive
      unfold Threads.few at few
      have goes : (s.queue.access fails call).2 = .inl c := by
        simpa [act, Sum.getLeft?_eq_some_iff] using there
      exact here.access (by omega) (by omega) goes
    · have ends := act_ends thread fails here
      exact (current other c (by simpa [act, same] using there)).other same ends.1 ends.2

theorem pending_update {thread : Thread} {after : Option (Call Item)}
    (same : pending after = pending (s.calls thread)) :
    pending (update s.calls thread after producer) = pending (s.calls producer) := by
  by_cases here : producer = thread
  · subst here
    simpa using same
  · rw [update_of_ne here]

theorem releasing_update {thread : Thread} {after : Option (Call Item)}
    (same : releasing after = releasing (s.calls thread)) :
    releasing (update s.calls thread after consumer) = releasing (s.calls consumer) := by
  by_cases here : consumer = thread
  · subst here
    simpa using same
  · rw [update_of_ne here]

theorem items_update {q : LockFreeQueue Item} {thread : Thread} {after : Option (Call Item)}
    {popped : List Item} {returns : List (Op Item × Returned Item)}
    (tail : q.tail = s.queue.tail) (head : q.head = s.queue.head)
    (push : pending after = pending (s.calls thread))
    (pop : releasing after = releasing (s.calls thread)) :
    items ⟨q, update s.calls thread after, s.granted, popped, returns⟩ producer consumer =
      s.items producer consumer := by
  simp only [items, tail, head, pending_update push, releasing_update pop]

/-- An access with which no call returns leaves what lies between the two as it is. -/
theorem act_items (current : s.AllCurrent producer consumer) (sound : s.Sound) (few : s.few)
    {thread : Thread} {call : Call Item} (found : s.calls thread = some call) {fails : Bool}
    (goes : (s.queue.access fails call).2 = .inl after) :
    (s.act thread fails call).items producer consumer = s.items producer consumer := by
  have count := sound.tail
  have order := sound.order
  have positive := sound.positive
  have here := current _ _ found
  unfold Threads.few at few
  have quiet (same : pending (some after) = pending (some call) ∧
      releasing (some after) = releasing (some call))
      (tail : (s.queue.access fails call).1.tail = s.queue.tail)
      (head : (s.queue.access fails call).1.head = s.queue.head)
      (none : Threads.grants s.queue fails call = []) :
      (s.act thread fails call).items producer consumer = s.items producer consumer := by
    simp only [act, goes, Sum.getLeft?_inl, none, List.append_nil]
    exact items_update tail head (found ▸ same.1) (found ▸ same.2)
  cases call with
  | push | peek | pop | pushCopy =>
    cases goes
    exact quiet ⟨rfl, rfl⟩ rfl rfl rfl
  | pushCheck | peekCheck | popCheck =>
    simp only [LockFreeQueue.access] at goes
    split at goes
    · cases goes
    · cases goes
      exact quiet ⟨rfl, rfl⟩ rfl rfl rfl
  | pushSwap data tail =>
    by_cases swaps : s.queue.tail = tail ∧ ¬ fails
    · have small : (tail + 1) % 2 ^ 64 = tail + 1 := Nat.mod_eq_of_lt (by omega)
      have acted : s.act thread fails (.pushSwap data tail) =
          ⟨{ s.queue with tail := tail + 1 }, update s.calls thread (some (.pushCopy data tail)),
            s.granted ++ [data], s.popped, s.returns⟩ := by
        simp [act, LockFreeQueue.access, Threads.grants, Threads.takes, swaps]
        omega
      obtain ⟨rfl, rfl⟩ := here
      have same : releasing (update s.calls thread (some (.pushCopy data s.queue.tail)) consumer) =
          releasing (s.calls consumer) := releasing_update (found ▸ rfl)
      rw [acted]
      simp only [items, same, update_self, found, pending, Nat.add_sub_cancel, Nat.sub_zero]
      rw [count, List.take_left, List.take_length]
    · simp only [LockFreeQueue.access, if_neg swaps] at goes
      cases goes
      exact quiet ⟨rfl, rfl⟩ (by simp only [LockFreeQueue.access, if_neg swaps])
        (by simp only [LockFreeQueue.access, if_neg swaps])
        (by simp only [Threads.grants, if_neg swaps])
  | popSwap head =>
    by_cases swaps : s.queue.head = head ∧ ¬ fails
    · have small : (head + 1) % 2 ^ 64 = head + 1 := Nat.mod_eq_of_lt (by omega)
      have acted : s.act thread fails (.popSwap head) =
          ⟨{ s.queue with head := head + 1 }, update s.calls thread (some (.popRelease head)),
            s.granted, s.popped ++ [(s.queue.node head).data], s.returns⟩ := by
        simp [act, LockFreeQueue.access, Threads.grants, Threads.takes, swaps]
        omega
      obtain ⟨rfl, rfl⟩ := here
      have same : pending (update s.calls thread (some (.popRelease s.queue.head)) producer) =
          pending (s.calls producer) := pending_update (found ▸ rfl)
      rw [acted]
      simp only [items, same, update_self, found, releasing, Nat.add_sub_cancel, Nat.sub_zero]
    · simp only [LockFreeQueue.access, if_neg swaps] at goes
      cases goes
      exact quiet ⟨rfl, rfl⟩ (by simp only [LockFreeQueue.access, if_neg swaps])
        (by simp only [LockFreeQueue.access, if_neg swaps]) rfl
  | _ => cases goes

/-- An access with which a call returns is all that the call does. -/
theorem act_answer {f : Bounded Item n} (size : s.queue.capacity = n)
    (held : f.items = s.items producer consumer) (current : s.AllCurrent producer consumer)
    (sound : s.Sound) {thread : Thread} {call : Call Item}
    (found : s.calls thread = some call) {fails : Bool}
    (returned : (s.queue.access fails call).2 = .inr r) :
    r = .of call.op (f.apply call.op).1 ∧
      (f.apply call.op).2.items = (s.act thread fails call).items producer consumer := by
  have count := sound.tail
  have order := sound.order
  have positive := sound.positive
  have here := current _ _ found
  have fits := sound.fits _ _ found
  have quiet (same : pending (none : Option (Call Item)) = pending (some call) ∧
      releasing (none : Option (Call Item)) = releasing (some call))
      (tail : (s.queue.access fails call).1.tail = s.queue.tail)
      (head : (s.queue.access fails call).1.head = s.queue.head)
      (nothing : Threads.grants s.queue fails call = []) :
      (s.act thread fails call).items producer consumer = s.items producer consumer := by
    simp only [Threads.act, returned, Sum.getLeft?_inr, nothing, List.append_nil]
    exact items_update tail head (found ▸ same.1) (found ▸ same.2)
  cases call with
  | pushCheck data tail =>
    simp only [LockFreeQueue.access] at returned
    split at returned
    · cases returned
      obtain ⟨rfl, rfl⟩ := here
      have full := current.full sound (by rw [found]; rfl) ‹_›
      have refused : f.push data = none := Bounded.push_eq_none.mpr (by rw [held, full, size])
      rw [quiet ⟨rfl, rfl⟩ rfl rfl rfl]
      simp [Call.op, Bounded.apply, refused, Returned.of, held]
    · cases returned
  | pushPublish data tail =>
    cases returned
    obtain ⟨rfl, place⟩ := here
    obtain ⟨_, here, unpublished, stored, _⟩ := fits
    have waiting := sound.waiting _ (sound.index_lt tail)
      (by rw [← sound.node_eq, here]; exact unpublished)
    rw [← sound.node_eq, here] at waiting
    have bounded := current.bounded sound
    have old : s.items thread consumer =
        (s.granted.take tail).drop (s.queue.head - releasing (s.calls consumer)) := by
      rw [items, found, ← place]
      rfl
    have more : (s.act thread fails (.pushPublish data tail)).items thread consumer =
        s.items thread consumer ++ [data] := by
      have same : releasing (update s.calls thread none consumer) = releasing (s.calls consumer) :=
        releasing_update (found ▸ rfl)
      have whole : s.granted = s.granted.take tail ++ [data] := by
        have next := List.take_add_one (l := s.granted) (i := tail)
        rwa [stored, place, count, List.take_length] at next
      have now : (s.act thread fails (.pushPublish data tail)).items thread consumer =
          s.granted.drop (s.queue.head - releasing (s.calls consumer)) := by
        simp [Threads.act, items, LockFreeQueue.access, LockFreeQueue.setNode, Threads.grants,
          pending, same, count]
      rw [now, old, ← List.drop_append_of_le_length (by rw [List.length_take]; omega), ← whole]
    have room : f.items.length < n := by
      rw [held, old, List.length_drop, List.length_take]
      omega
    obtain ⟨g, pushed⟩ : ∃ g, f.push data = some g := ⟨_, dif_pos room⟩
    rw [more, ← held, ← Bounded.push_items pushed]
    simp [Call.op, Bounded.apply, pushed, Returned.of]
  | peekCheck head =>
    simp only [LockFreeQueue.access] at returned
    split at returned
    · cases returned
      obtain ⟨rfl, rfl⟩ := here
      have empty := current.empty sound (by rw [found]; rfl) ‹_›
      rw [quiet ⟨rfl, rfl⟩ rfl rfl rfl]
      simp [Call.op, Bounded.apply, Bounded.front, Returned.of, held, empty]
    · cases returned
  | peekCopy head =>
    cases returned
    obtain ⟨rfl, rfl⟩ := here
    obtain ⟨place, filled⟩ := fits.2 rfl
    obtain ⟨inside, stored⟩ := current.seen sound place filled
    have items := items_cons (by rw [found]; rfl) inside stored
    rw [quiet ⟨rfl, rfl⟩ rfl rfl rfl]
    simp [Call.op, Bounded.apply, Bounded.front, Returned.of, held, items]
  | popCheck head =>
    simp only [LockFreeQueue.access] at returned
    split at returned
    · cases returned
      obtain ⟨rfl, rfl⟩ := here
      have empty := current.empty sound (by rw [found]; rfl) ‹_›
      rw [quiet ⟨rfl, rfl⟩ rfl rfl rfl]
      simp [Call.op, Bounded.apply, Bounded.front, Bounded.rest, Returned.of, held, empty]
    · cases returned
  | popRelease head =>
    cases returned
    obtain ⟨rfl, next⟩ := here
    obtain ⟨_, place, filled⟩ := fits
    obtain ⟨inside, stored⟩ := current.seen sound place filled
    have items := items_cons (by rw [found]; exact Nat.eq_sub_of_add_eq next) inside stored
    have rest : (s.act thread fails (.popRelease head)).items producer thread =
        (s.items producer thread).tail := by
      have same : pending (update s.calls thread none producer) = pending (s.calls producer) :=
        pending_update (found ▸ rfl)
      rw [items, List.tail_cons]
      simp [Threads.act, Threads.items, LockFreeQueue.access, LockFreeQueue.setNode,
        Threads.grants, releasing, same, next]
    rw [rest]
    simp [Call.op, Bounded.apply, Bounded.front, Bounded.rest, Returned.of, held, items]
  | pushSwap | popSwap =>
    simp only [LockFreeQueue.access] at returned
    split at returned <;> cases returned
  | _ => cases returned

theorem act_returns (s : Threads Item Thread) (thread : Thread) {call : Call Item} {fails : Bool}
    (returned : (s.queue.access fails call).2 = .inr r) :
    (s.act thread fails call).returns = s.returns ++ [(call.op, r)] := by
  simp [act, returned]

theorem Linear.step {n : Nat} (linear : Linear n s producer consumer)
    (size : s.queue.capacity = n) (current : s.AllCurrent producer consumer) (sound : s.Sound)
    (few : s.few) {e : ThreadEvent Item Thread} (plays : e.plays producer consumer)
    (taken : s.step e = .ok next) : Linear n next producer consumer := by
  rcases step_cases taken with ⟨thread, op, rfl, idle, rfl⟩ | ⟨thread, fails, call, rfl, found, rfl⟩
  · refine linear.keeps rfl (items_update rfl rfl ?_ ?_)
    · rw [idle]
      cases op <;> rfl
    · rw [idle]
      cases op <;> rfl
  · cases after : (s.queue.access fails call).2 with
    | inl next =>
      refine linear.keeps ?_ (act_items current sound few found after)
      simp [Threads.act, after]
    | inr r =>
      exact linear.answers (act_returns s thread after) fun f held =>
        act_answer size held current sound found after

/-- One thread pushes and one looks and pops. However their accesses interleave, what their
calls return, in the order in which they return, is what a queue of the rounded capacity
answers when it handles the same calls one after another. -/
theorem returns_linear (capacity : Nat) (memory : Nat → Item)
    (events : List (ThreadEvent Item Thread)) (producer consumer : Thread)
    (positive : 0 < capacity) (small : capacity ≤ 2 ^ 63)
    (plays : ∀ e ∈ events, e.plays producer consumer)
    (room : Guarded step (fun s _ => s.few) (init capacity memory) events)
    (reached : run step (init capacity memory) events = .ok s) :
    s.returns.map Prod.snd = List.zipWith Returned.of (s.returns.map Prod.fst)
      ((Bounded.empty Item (2 ^ Nat.clog 2 capacity)).handle (s.returns.map Prod.fst)).1 := by
  have current : (init capacity memory : Threads Item Thread).AllCurrent producer consumer := by
    intro thread call found
    cases found
  have keep (s : Threads Item Thread) (e : ThreadEvent Item Thread) (t : Threads Item Thread)
      (held : s.Sound ∧ s.AllCurrent producer consumer ∧
        s.queue.capacity = 2 ^ Nat.clog 2 capacity ∧
        Linear (2 ^ Nat.clog 2 capacity) s producer consumer)
      (meets : s.few ∧ e.plays producer consumer) (taken : s.step e = .ok t) :
      t.Sound ∧ t.AllCurrent producer consumer ∧ t.queue.capacity = 2 ^ Nat.clog 2 capacity ∧
        Linear (2 ^ Nat.clog 2 capacity) t producer consumer := by
    obtain ⟨sound, current, size, linear⟩ := held
    exact ⟨sound.step meets.1 taken, current.step sound meets.1 meets.2 taken,
      (step_capacity taken).trans size, linear.step size current sound meets.1 meets.2 taken⟩
  have last := (room.and (Guarded.of_events plays _)).invariant
    ⟨init_sound positive small memory, current, LockFreeQueue.new_capacity positive small memory,
      rfl, rfl⟩ keep reached
  exact last.2.2.2.1

/-- A push returns between the look and the pop of the other thread. -/
def paired : List (ThreadEvent Nat Bool) :=
  [.begins true (.put 7), .acts true false, .acts true false, .begins false .look,
    .acts true true, .acts true false, .acts true false, .acts false false, .acts true false,
    .acts true false, .acts false false, .acts false false, .begins false .take,
    .acts false false, .acts false false, .acts false false, .acts false false]

theorem returns_linear_paired : ∃ s, run step (init 3 fun _ => 0) paired = .ok s ∧
    s.returns.map Prod.snd = [.pushed true, .peeked (some 7), .popped true] ∧
    s.returns.map Prod.snd = List.zipWith Returned.of (s.returns.map Prod.fst)
      ((Bounded.empty Nat (2 ^ Nat.clog 2 3)).handle (s.returns.map Prod.fst)).1 :=
  ⟨_, rfl, rfl, returns_linear 3 (fun _ => 0) paired true false (by decide) (by decide)
    (by simp [paired, ThreadEvent.plays]) (by decide) rfl⟩

end Threads

end Quickshare
