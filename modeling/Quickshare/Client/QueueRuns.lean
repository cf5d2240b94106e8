import Quickshare.Client.LockFreeQueue

/-! Every access keeps the places of the queue apart, whatever the other threads do, so
that what is popped is what was pushed. -/

namespace Quickshare

universe u v

open Fifo Runs Function

/-- Places that share a node and are less than one turn of the ring apart are the same. -/
theorem LockFreeQueue.place_eq {a b n : Nat} (same : a % n = b % n) (after : a < b + n) (before : b < a + n) :
    a = b := by
  rcases Nat.le_total a b with le | le
  · have zero := Nat.eq_zero_of_dvd_of_lt ((Nat.modEq_iff_dvd' le).mp same) (by omega)
    omega
  · have zero := Nat.eq_zero_of_dvd_of_lt ((Nat.modEq_iff_dvd' le).mp same.symm) (by omega)
    omega

namespace Threads

variable {Item : Type u} {Thread : Type v}

theorem Fits.grant {q : LockFreeQueue Item} {granted : List Item} {call : Call Item}
    (fits : Fits q granted call) (count : q.tail = granted.length) (data : Item) :
    Fits { q with tail := q.tail + 1 } (granted ++ [data]) call := by
  cases call with
  | pushCheck | pushSwap =>
    simp only [Fits, LockFreeQueue.node] at fits ⊢
    omega
  | pushCopy | pushPublish =>
    obtain ⟨early, fits⟩ := fits
    refine ⟨Nat.lt_succ_of_lt early, ?_⟩
    rw [List.getElem?_append_left (by omega)]
    exact fits
  | _ => exact fits

theorem Fits.take {q : LockFreeQueue Item} {granted : List Item} {call : Call Item}
    (fits : Fits q granted call) : Fits { q with head := q.head + 1 } granted call := by
  cases call with
  | peekCopy | popSwap => 
    exact ⟨Nat.le_succ_of_le fits.1, fun same => absurd (same ▸ fits.1) (Nat.not_succ_le_self _)⟩
  | peekCheck | popCheck => exact Nat.le_succ_of_le fits
  | popRelease => exact ⟨Nat.lt_succ_of_lt fits.1, fits.2⟩
  | _ => exact fits

namespace Sound

variable {s : Threads Item Thread}

theorem index (sound : s.Sound) (i : Nat) :
    i &&& s.queue.capacityMask = i % s.queue.capacity := by
  obtain ⟨k, power⟩ := sound.power
  rw [sound.mask, power, Ring.mask_eq_mod]

theorem positive (sound : s.Sound) : 0 < s.queue.capacity := by
  obtain ⟨k, power⟩ := sound.power
  exact power ▸ Nat.two_pow_pos k

theorem index_lt (sound : s.Sound) (i : Nat) : i % s.queue.capacity < s.queue.capacity :=
  Nat.mod_lt _ sound.positive

theorem node_eq (sound : s.Sound) (i : Nat) :
    s.queue.node i = s.queue.queue (i % s.queue.capacity) := by
  rw [LockFreeQueue.node, sound.index]

theorem setNode_eq (sound : s.Sound) (i : Nat) (n : QueueNode Item) :
    s.queue.setNode i n =
      { s.queue with queue := update s.queue.queue (i % s.queue.capacity) n } := by
  rw [LockFreeQueue.setNode, sound.index]

/-- A node whose place is less than a turn away is at that place. -/
theorem at_place (sound : s.Sound) {t : Nat}
    (after : (s.queue.node t).tail < t + s.queue.capacity)
    (before : t < (s.queue.node t).tail + s.queue.capacity) : (s.queue.node t).tail = t := by
  rw [sound.node_eq] at after before ⊢
  exact LockFreeQueue.place_eq (by rw [sound.place _ (sound.index_lt t)]) after before

/-- The node that the next pop is to find filled. -/
theorem oldest (sound : s.Sound) (few : s.few) {t : Nat} (first : t = s.queue.head)
    (filled : (s.queue.node t).head = t) :
    (s.queue.node t).tail = t ∧ (s.queue.node t).head = t := by
  have order := sound.order
  have count := sound.tail
  have stage := sound.stage _ (sound.index_lt t)
  have window := sound.window _ (sound.index_lt t)
  rw [← sound.node_eq, filled] at stage
  rw [← sound.node_eq] at window
  unfold Threads.few at few
  exact ⟨by omega, filled⟩

/-- The node of place `t` is written by the call that has the place. -/
theorem fits_write (sound : s.Sound) {t : Nat} {n : QueueNode Item} {call : Call Item}
    (fits : Fits s.queue s.granted call) (other : call.place ≠ some t)
    (here : (s.queue.node t).tail = t) (later : t ≤ n.tail)
    (apart : s.queue.head = t → (s.queue.node t).head ≠ t) :
    Fits (s.queue.setNode t n) s.granted call := by
  have node (i : Nat) : (s.queue.setNode t n).node i =
      if i % s.queue.capacity = t % s.queue.capacity then n else s.queue.node i := by
    simp only [LockFreeQueue.node, LockFreeQueue.setNode, sound.index, update_apply]
  have old (i : Nat) (same : i % s.queue.capacity = t % s.queue.capacity) :
      s.queue.node i = s.queue.node t := by
    rw [sound.node_eq, sound.node_eq, same]
  cases call with
  | pushSwap data i =>
    refine ⟨fits.1, ?_⟩
    rw [node]
    split
    · have below := fits.2
      rw [old i ‹_›, here] at below
      exact Nat.le_trans below later
    · exact fits.2
  | pushCopy data i | pushPublish data i | popRelease i =>
    have different : i % s.queue.capacity ≠ t % s.queue.capacity := by
      intro same
      have found := fits.2.1
      rw [old i same, here] at found
      exact other (congrArg some found.symm)
    simp only [Fits, node, if_neg different]
    exact fits
  | peekCopy i | popSwap i =>
    refine ⟨fits.1, fun first => ?_⟩
    obtain ⟨found, done⟩ := fits.2 first
    have different : i % s.queue.capacity ≠ t % s.queue.capacity := by
      intro same
      rw [old i same] at found done
      rw [here] at found
      exact apart (first.symm.trans found.symm) (done.trans found.symm)
    rw [node, if_neg different]
    exact ⟨found, done⟩
  | _ => exact fits

theorem node_self (sound : s.Sound) (t : Nat) (n : QueueNode Item) :
    (s.queue.setNode t n).node t = n := by
  simp only [LockFreeQueue.node, LockFreeQueue.setNode, sound.index, update_self]

/-- At most one turn of the ring is taken by pushes and not by pops. -/
theorem granted_le (sound : s.Sound) : s.queue.tail ≤ s.queue.head + s.queue.capacity := by
  have window := sound.window _ (sound.index_lt s.queue.head)
  have place := sound.place _ (sound.index_lt s.queue.head)
  have positive := sound.positive
  rcases Nat.lt_or_ge s.queue.head
    (s.queue.queue (s.queue.head % s.queue.capacity)).tail with less | most
  · have same := LockFreeQueue.place_eq place window.2 (by omega)
    omega
  · omega

/-- Two calls with places of their own use different nodes. -/
theorem nodes_ne (sound : s.Sound) {first second : Thread} {a b : Call Item} {i j : Nat}
    (different : first ≠ second) (left : s.calls first = some a)
    (right : s.calls second = some b) (leftPlace : a.place = some i)
    (rightPlace : b.place = some j) :
    i % s.queue.capacity ≠ j % s.queue.capacity := by
  have at_place (c : Call Item) (t : Nat) (fits : Fits s.queue s.granted c)
      (place : c.place = some t) : (s.queue.node t).tail = t := by
    cases c with
    | pushCopy | pushPublish | popRelease =>
      cases place
      exact fits.2.1
    | _ => cases place
  intro same
  have equal : i = j := by
    rw [← at_place a i (sound.fits _ _ left) leftPlace,
      ← at_place b j (sound.fits _ _ right) rightPlace, sound.node_eq, sound.node_eq, same]
  subst equal
  exact different (sound.apart first second a b i left right leftPlace rightPlace)

variable [DecidableEq Thread]

/-- A call goes on without a change to the queue. -/
theorem moves (sound : s.Sound) {thread : Thread} {next : Option (Call Item)}
    {popped : List Item} {returns : List (Op Item × Returned Item)}
    (free : ∀ call, s.calls thread = some call → call.place = none)
    (fits : ∀ call, next = some call → call.place = none ∧ Fits s.queue s.granted call) :
    Sound ⟨s.queue, update s.calls thread next, s.granted, popped, returns⟩ := by
  refine { sound with fits := ?_, apart := ?_, held := ?_, taken := ?_ }
  · intro other call found
    by_cases same : other = thread
    · subst same
      exact (fits call (by simpa using found)).2
    · exact sound.fits other call (by simpa [same] using found)
  · intro first second a b i left right leftPlace rightPlace
    have kept (other : Thread) (call : Call Item)
        (found : update s.calls thread next other = some call) (place : call.place = some i) :
        s.calls other = some call := by
      by_cases same : other = thread
      · subst same
        simp [(fits call (by simpa using found)).1] at place
      · simpa [same] using found
    exact sound.apart first second a b i (kept _ _ left leftPlace) (kept _ _ right rightPlace)
      leftPlace rightPlace
  · intro i inside granted unpublished
    obtain ⟨other, data, found⟩ := sound.held i inside granted unpublished
    have different : other ≠ thread := by
      rintro rfl
      rcases found with found | found
      all_goals simpa [Call.place] using free _ found
    exact ⟨other, data, by simpa [different] using found⟩
  · intro i inside popped
    obtain ⟨other, found⟩ := sound.taken i inside popped
    have different : other ≠ thread := by
      rintro rfl
      simpa [Call.place] using free _ found
    exact ⟨other, by simpa [different] using found⟩

/-- A thread goes on with a place that no other thread has. -/
theorem apart_update (sound : s.Sound) {thread : Thread} {next : Option (Call Item)}
    (own : ∀ call i, next = some call → call.place = some i → ∀ other c,
      s.calls other = some c → c.place = some i → other = thread)
    (first second : Thread) (a b : Call Item) (i : Nat)
    (left : update s.calls thread next first = some a)
    (right : update s.calls thread next second = some b)
    (leftPlace : a.place = some i) (rightPlace : b.place = some i) : first = second := by
  by_cases here : first = thread
  · by_cases there : second = thread
    · exact here.trans there.symm
    · subst here
      exact (own a i (by simpa using left) leftPlace second b (by simpa [there] using right)
        rightPlace).symm
  · by_cases there : second = thread
    · subst there
      exact own b i (by simpa using right) rightPlace first a (by simpa [here] using left)
        leftPlace
    · exact sound.apart first second a b i (by simpa [here] using left)
        (by simpa [there] using right) leftPlace rightPlace

/-- A push takes the next place. -/
theorem grants (sound : s.Sound) {thread : Thread} {data : Item}
    {popped : List Item} {returns : List (Op Item × Returned Item)}
    (few : s.few)
    (found : s.calls thread = some (.pushSwap data s.queue.tail)) :
    Sound ⟨{ s.queue with tail := (s.queue.tail + 1) % 2 ^ 64 },
      update s.calls thread (some (.pushCopy data s.queue.tail)), s.granted ++ [data],
      popped, returns⟩ := by
  have fit := sound.fits _ _ found
  have count := sound.tail
  have order := sound.order
  have positive := sound.positive
  have small : (s.queue.tail + 1) % 2 ^ 64 = s.queue.tail + 1 := Nat.mod_eq_of_lt (by unfold Threads.few at few; omega)
  have window := sound.window _ (sound.index_lt s.queue.tail)
  rw [← sound.node_eq] at window
  have here : (s.queue.node s.queue.tail).tail = s.queue.tail :=
    sound.at_place (by omega) (by have := fit.2; omega)
  have unpublished : (s.queue.node s.queue.tail).head ≠ s.queue.tail := by
    intro same
    have early := (sound.published _ (sound.index_lt s.queue.tail)
      (by rw [← sound.node_eq, same, here])).1
    rw [← sound.node_eq, here] at early
    exact Nat.lt_irrefl _ early
  rw [small]
  refine { sound with tail := ?_, order := ?_, window := ?_, published := ?_, fits := ?_,
                      apart := ?_, held := ?_, taken := ?_ }
  all_goals dsimp only
  · simp [count]
  · exact Nat.le_succ_of_le order
  · intro i inside
    refine ⟨?_, (sound.window i inside).2⟩
    have old := (sound.window i inside).1
    rcases Nat.lt_or_ge s.queue.tail ((s.queue.queue i).tail + s.queue.capacity) with less | most
    · exact less
    · have same : s.queue.tail = (s.queue.queue i).tail + s.queue.capacity := by omega
      have index : s.queue.tail % s.queue.capacity = i := by
        rw [same, Nat.add_mod_right, sound.place i inside]
      rw [sound.node_eq, index] at here
      omega
  · intro i inside published
    obtain ⟨early, stored⟩ := sound.published i inside published
    refine ⟨Nat.lt_succ_of_lt early, ?_⟩
    rw [List.getElem?_append_left (by omega)]
    exact stored
  · intro other call there
    by_cases same : other = thread
    · subst same
      cases there.symm.trans (update_self ..)
      exact ⟨Nat.lt_succ_self _, here, unpublished, by simp [count]⟩
    · exact (sound.fits other call (by simpa [same] using there)).grant count data
  · refine sound.apart_update fun call i same place other c there owns => ?_
    cases same
    cases place
    have old := sound.fits other c there
    cases c <;> cases owns <;> have early := old.1 <;> omega
  · intro i inside taken unpublished
    rcases Nat.lt_or_ge (s.queue.queue i).tail s.queue.tail with early | late
    · obtain ⟨other, d, there⟩ := sound.held i inside early unpublished
      have different : other ≠ thread := by
        rintro rfl
        simp [found] at there
      exact ⟨other, d, by simpa [different] using there⟩
    · have same : (s.queue.queue i).tail = s.queue.tail := by omega
      exact ⟨thread, data, .inl (by rw [update_self, same])⟩
  · intro i inside popped
    obtain ⟨other, there⟩ := sound.taken i inside popped
    have different : other ≠ thread := by
      rintro rfl
      simp [found] at there
    exact ⟨other, by simpa [different] using there⟩

/-- A pop takes the oldest place. -/
theorem takes (sound : s.Sound) {thread : Thread} {popped : List Item}
    {returns : List (Op Item × Returned Item)}
    (few : s.few)
    (found : s.calls thread = some (.popSwap s.queue.head)) :
    Sound ⟨{ s.queue with head := (s.queue.head + 1) % 2 ^ 64 },
      update s.calls thread (some (.popRelease s.queue.head)), s.granted, popped, returns⟩ := by
  have count := sound.tail
  have order := sound.order
  obtain ⟨here, done⟩ := (sound.fits _ _ found).2 rfl
  have published := sound.published _ (sound.index_lt s.queue.head)
    (by rw [← sound.node_eq, here, done])
  rw [← sound.node_eq, here] at published
  have small : (s.queue.head + 1) % 2 ^ 64 = s.queue.head + 1 := Nat.mod_eq_of_lt (by unfold Threads.few at few; omega)
  rw [small]
  refine { sound with order := ?_, window := ?_, waiting := ?_, fits := ?_, apart := ?_,
                      held := ?_, taken := ?_ }
  all_goals dsimp only
  · exact published.1
  · intro i inside
    have old := sound.window i inside
    omega
  · intro i inside unpublished
    have old := sound.waiting i inside unpublished
    rcases Nat.lt_or_ge s.queue.head (s.queue.queue i).tail with less | most
    · exact less
    · have same : (s.queue.queue i).tail = s.queue.head := by omega
      have index := sound.place i inside
      rw [same] at index
      rw [sound.node_eq, index] at here done
      omega
  · intro other call there
    by_cases same : other = thread
    · subst same
      cases there.symm.trans (update_self ..)
      exact ⟨Nat.lt_succ_self _, here, done⟩
    · exact (sound.fits other call (by simpa [same] using there)).take
  · refine sound.apart_update fun call i same place other c there owns => ?_
    cases same
    cases place
    have old := sound.fits other c there
    cases c with
    | pushCopy | pushPublish =>
      cases owns
      exact absurd done old.2.2.1
    | popRelease =>
      cases owns
      exact absurd old.1 (Nat.lt_irrefl _)
    | _ => cases owns
  · intro i inside early unpublished
    obtain ⟨other, data, there⟩ := sound.held i inside early unpublished
    have different : other ≠ thread := by
      rintro rfl
      simp [found] at there
    exact ⟨other, data, by simpa [different] using there⟩
  · intro i inside popped
    rcases Nat.lt_or_ge (s.queue.queue i).tail s.queue.head with early | late
    · obtain ⟨other, there⟩ := sound.taken i inside early
      have different : other ≠ thread := by
        rintro rfl
        simp [found] at there
      exact ⟨other, by simpa [different] using there⟩
    · have same : (s.queue.queue i).tail = s.queue.head := by omega
      exact ⟨thread, by rw [update_self, same]⟩

/-- A call writes the node of its place. -/
theorem writes (sound : s.Sound) {thread : Thread} {call : Call Item} {t : Nat}
    {n : QueueNode Item} {next : Option (Call Item)} {popped : List Item}
    {returns : List (Op Item × Returned Item)}
    (found : s.calls thread = some call) (owns : call.place = some t)
    (here : (s.queue.node t).tail = t) (later : t ≤ n.tail)
    (apart : s.queue.head = t → (s.queue.node t).head ≠ t)
    (place : n.tail % s.queue.capacity = t % s.queue.capacity)
    (window : s.queue.tail ≤ n.tail + s.queue.capacity ∧
      n.tail < s.queue.head + s.queue.capacity)
    (stage : n.head = n.tail ∨ n.tail = n.head + s.queue.capacity ∨
      n.tail < s.queue.capacity ∧ n.head = 2 ^ 64 - 1)
    (published : n.head = n.tail → n.tail < s.queue.tail ∧ s.granted[n.tail]? = some n.data)
    (waiting : n.head ≠ n.tail → s.queue.head ≤ n.tail)
    (nextPlace : ∀ call i, next = some call → call.place = some i → i = t)
    (nextFits : ∀ call, next = some call → Fits (s.queue.setNode t n) s.granted call)
    (held : n.tail < s.queue.tail → n.head ≠ n.tail →
      ∃ data, next = some (.pushPublish data n.tail))
    (taken : ¬ n.tail < s.queue.head) :
    Sound ⟨s.queue.setNode t n, update s.calls thread next, s.granted, popped, returns⟩ := by
  have others (other : Thread) (c : Call Item) (there : s.calls other = some c)
      (different : other ≠ thread) : c.place ≠ some t := fun same =>
    different (sound.apart other thread c call t there found same owns)
  have fits (other : Thread) (c : Call Item)
      (there : update s.calls thread next other = some c) :
      Fits (s.queue.setNode t n) s.granted c := by
    by_cases same : other = thread
    · subst same
      exact nextFits c (by simpa using there)
    · have there : s.calls other = some c := by simpa [same] using there
      exact sound.fits_write (sound.fits other c there) (others other c there same) here later apart
  have node (i : Nat) (P : QueueNode Item → Prop) (new : P n) (old : P (s.queue.queue i)) :
      P (update s.queue.queue (t % s.queue.capacity) n i) := by
    by_cases same : i = t % s.queue.capacity
    · subst same
      simpa using new
    · simpa [same] using old
  rw [sound.setNode_eq] at fits ⊢
  refine { sound with place := ?_, window := ?_, stage := ?_, published := ?_, waiting := ?_,
                      fits, apart := ?_, held := ?_, taken := ?_ }
  all_goals dsimp only
  · intro i inside
    by_cases same : i = t % s.queue.capacity
    · subst same
      simpa using place
    · simpa [same] using sound.place i inside
  · exact fun i inside => node i (fun n => s.queue.tail ≤ n.tail + s.queue.capacity ∧
      n.tail < s.queue.head + s.queue.capacity) window (sound.window i inside)
  · exact fun i inside => node i (fun n => n.head = n.tail ∨ n.tail = n.head + s.queue.capacity ∨
      n.tail < s.queue.capacity ∧ n.head = 2 ^ 64 - 1) stage (sound.stage i inside)
  · exact fun i inside => node i (fun n => n.head = n.tail → n.tail < s.queue.tail ∧
      s.granted[n.tail]? = some n.data) published (sound.published i inside)
  · exact fun i inside => node i (fun n => n.head ≠ n.tail → s.queue.head ≤ n.tail) waiting
      (sound.waiting i inside)
  · refine sound.apart_update fun c i same owned other d there placed => ?_
    cases nextPlace c i same owned
    exact sound.apart other thread d call t there found placed owns
  · intro i inside early unpublished
    by_cases same : i = t % s.queue.capacity
    · subst same
      rw [update_self] at early unpublished
      obtain ⟨data, here⟩ := held early unpublished
      exact ⟨thread, data, .inr (by simpa using here)⟩
    · rw [update_of_ne same] at early unpublished ⊢
      obtain ⟨other, data, there⟩ := sound.held i inside early unpublished
      have different : other ≠ thread := by
        rintro rfl
        have equal : (s.queue.queue i).tail = t := by
          rcases there with there | there
          all_goals
            cases found.symm.trans there
            exact Option.some.inj owns
        have index := sound.place i inside
        rw [equal] at index
        exact same index.symm
      exact ⟨other, data, by simpa [different] using there⟩
  · intro i inside popped
    by_cases same : i = t % s.queue.capacity
    · subst same
      rw [update_self] at popped
      exact absurd popped taken
    · rw [update_of_ne same] at popped ⊢
      obtain ⟨other, there⟩ := sound.taken i inside popped
      have different : other ≠ thread := by
        rintro rfl
        cases found.symm.trans there
        have index := sound.place i inside
        rw [Option.some.inj owns] at index
        exact same index.symm
      exact ⟨other, by simpa [different] using there⟩

/-- A push writes its item. -/
theorem copies (sound : s.Sound) {thread : Thread} {data : Item} {t : Nat}
    {popped : List Item} {returns : List (Op Item × Returned Item)}
    (found : s.calls thread = some (.pushCopy data t)) :
    Sound ⟨s.queue.setNode t { s.queue.node t with data },
      update s.calls thread (some (.pushPublish data t)), s.granted, popped, returns⟩ := by
  obtain ⟨early, here, unpublished, stored⟩ := sound.fits _ _ found
  have inside := sound.index_lt t
  have window := sound.window _ inside
  have stage := sound.stage _ inside
  have waiting := sound.waiting _ inside
  rw [← sound.node_eq, here] at window waiting
  rw [← sound.node_eq] at stage
  apply sound.writes found rfl here
  case later => exact Nat.le_of_eq here.symm
  case apart => exact fun _ => unpublished
  case place => rw [here]
  case window => simpa only [here] using window
  case stage => exact stage
  case published => exact fun same => absurd (same.trans here) unpublished
  case waiting => exact fun _ => here.symm ▸ waiting unpublished
  case nextPlace => exact fun c i same placed => by cases same; exact (Option.some.inj placed).symm
  case nextFits =>
    intro c same
    cases same
    exact ⟨early, by rw [sound.node_self, here], by rwa [sound.node_self], stored,
      by rw [sound.node_self]⟩
  case held => exact fun _ _ => ⟨data, by rw [here]⟩
  case taken => exact Nat.not_lt.mpr (here.symm ▸ waiting unpublished)

/-- A push lets its item be seen. -/
theorem publishes (sound : s.Sound) {thread : Thread} {data : Item} {t : Nat}
    {popped : List Item} {returns : List (Op Item × Returned Item)}
    (found : s.calls thread = some (.pushPublish data t)) :
    Sound ⟨s.queue.setNode t { s.queue.node t with head := t }, update s.calls thread none,
      s.granted, popped, returns⟩ := by
  obtain ⟨early, here, unpublished, stored, written⟩ := sound.fits _ _ found
  have inside := sound.index_lt t
  have window := sound.window _ inside
  have waiting := sound.waiting _ inside
  rw [← sound.node_eq, here] at window waiting
  apply sound.writes found rfl here
  case later => exact Nat.le_of_eq here.symm
  case apart => exact fun _ => unpublished
  case place => rw [here]
  case window => simpa only [here] using window
  case stage => exact .inl here.symm
  case published => exact fun _ => ⟨here.symm ▸ early, by simpa only [here, written] using stored⟩
  case waiting => exact fun different => absurd here.symm different
  case nextPlace => exact fun _ _ same => by cases same
  case nextFits => exact fun _ same => by cases same
  case held => exact fun _ different => absurd here.symm different
  case taken => exact Nat.not_lt.mpr (here.symm ▸ waiting unpublished)

/-- A pop gives its place to the push one turn later. -/
theorem releases (sound : s.Sound) {thread : Thread} {t : Nat}
    {popped : List Item} {returns : List (Op Item × Returned Item)}
    (few : s.few)
    (found : s.calls thread = some (.popRelease t)) :
    Sound ⟨s.queue.setNode t { s.queue.node t with
        tail := (t + s.queue.capacity) % 2 ^ 64 }, update s.calls thread none,
      s.granted, popped, returns⟩ := by
  obtain ⟨early, here, published⟩ := sound.fits _ _ found
  have count := sound.tail
  have order := sound.order
  have positive := sound.positive
  have window := (sound.window _ (sound.index_lt t)).1
  rw [← sound.node_eq, here] at window
  have small : (t + s.queue.capacity) % 2 ^ 64 = t + s.queue.capacity :=
    Nat.mod_eq_of_lt (by unfold Threads.few at few; omega)
  rw [small]
  apply sound.writes found rfl here
  case later => exact Nat.le_add_right ..
  case apart => exact fun same => absurd same (Nat.ne_of_gt early)
  case place => exact Nat.add_mod_right ..
  case window => exact ⟨Nat.le_trans window (Nat.le_add_right ..), Nat.add_lt_add_right early _⟩
  case stage => exact .inr (.inl (by rw [published]))
  case published => exact fun same => by simp only [published] at same; omega
  case waiting => exact fun _ => Nat.le_trans order window
  case nextPlace => exact fun _ _ same => by cases same
  case nextFits => exact fun _ same => by cases same
  case held => exact fun less => absurd window (Nat.not_le.mpr less)
  case taken => exact Nat.not_lt.mpr (Nat.le_trans order window)

theorem begins (sound : s.Sound) {thread : Thread} (idle : s.calls thread = none) (op : Op Item) :
    Sound { s with calls := update s.calls thread (some (.start op)) } := by
  apply sound.moves
  · intro call found
    cases idle.symm.trans found
  · intro call same
    cases same
    cases op <;> exact ⟨rfl, trivial⟩

/-- Every access of every call keeps what holds between the accesses. -/
theorem acts (sound : s.Sound) (few : s.few) {thread : Thread} {call : Call Item}
    (found : s.calls thread = some call) (fails : Bool) : Sound (s.act thread fails call) := by
  have fit := sound.fits _ _ found
  have free (none : call.place = none) (c : Call Item) (there : s.calls thread = some c) :
      c.place = .none := by
    cases found.symm.trans there
    exact none
  unfold act Threads.grants Threads.takes
  cases call with
  | push data =>
    simp only [LockFreeQueue.access, List.append_nil]
    exact sound.moves (free rfl) fun c same => by cases same; exact ⟨rfl, Nat.le_refl _⟩
  | pushCheck data tail =>
    simp only [LockFreeQueue.access, List.append_nil]
    refine sound.moves (free rfl) fun c same => ?_
    split at same
    · cases same
    · cases same
      exact ⟨rfl, fit, Nat.le_of_eq (by simp_all)⟩
  | pushSwap data tail =>
    simp only [LockFreeQueue.access]
    split
    · obtain ⟨rfl, _⟩ := ‹s.queue.tail = tail ∧ _›
      exact sound.grants few found
    · simp only [List.append_nil]
      exact sound.moves (free rfl) fun c same => by cases same; exact ⟨rfl, Nat.le_refl _⟩
  | pushCopy data tail =>
    simp only [LockFreeQueue.access, List.append_nil]
    exact sound.copies found
  | pushPublish data tail =>
    simp only [LockFreeQueue.access, List.append_nil]
    exact sound.publishes found
  | peek | pop =>
    simp only [LockFreeQueue.access, List.append_nil]
    exact sound.moves (free rfl) fun c same => by cases same; exact ⟨rfl, Nat.le_refl _⟩
  | peekCheck head | popCheck head =>
    simp only [LockFreeQueue.access, List.append_nil]
    refine sound.moves (free rfl) fun c same => ?_
    split at same
    · cases same
    · cases same
      exact ⟨rfl, fit, fun first => sound.oldest few first (by simp_all)⟩
  | peekCopy head =>
    simp only [LockFreeQueue.access, List.append_nil]
    exact sound.moves (free rfl) fun c same => by cases same
  | popSwap head =>
    simp only [LockFreeQueue.access, List.append_nil]
    split
    · obtain ⟨rfl, _⟩ := ‹s.queue.head = head ∧ _›
      exact sound.takes few found
    · exact sound.moves (free rfl) fun c same => by cases same; exact ⟨rfl, Nat.le_refl _⟩
  | popRelease head =>
    simp only [LockFreeQueue.access, List.append_nil]
    exact sound.releases few found

theorem step (sound : s.Sound) (few : s.few) {e : ThreadEvent Item Thread}
    (taken : s.step e = .ok next) : next.Sound := by
  rcases step_cases taken with ⟨thread, op, _, idle, rfl⟩ | ⟨thread, fails, call, _, found, rfl⟩
  · exact sound.begins idle op
  · exact sound.acts few found fails

/-- What pops took is what the pushes before stored. -/
theorem popped (sound : s.Sound) (few : s.few) {e : ThreadEvent Item Thread}
    (held : s.popped = s.granted.take s.queue.head) (taken : s.step e = .ok next) :
    next.popped = next.granted.take next.queue.head := by
  have count := sound.tail
  have order := sound.order
  rcases step_cases taken with ⟨thread, op, _, idle, rfl⟩ | ⟨thread, fails, call, _, found, rfl⟩
  · exact held
  · unfold act Threads.grants Threads.takes
    cases call with
    | pushSwap data tail =>
      simp only [LockFreeQueue.access, List.append_nil]
      split
      · simp only [List.take_append_of_le_length (by omega : s.queue.head ≤ s.granted.length)]
        exact held
      · simpa using held
    | popSwap head =>
      simp only [LockFreeQueue.access, List.append_nil]
      split
      · obtain ⟨rfl, _⟩ := ‹s.queue.head = head ∧ _›
        obtain ⟨here, done⟩ := (sound.fits _ _ found).2 rfl
        obtain ⟨early, stored⟩ := sound.published _ (sound.index_lt s.queue.head)
          (by rw [← sound.node_eq, here, done])
        rw [← sound.node_eq, here] at early stored
        have small : (s.queue.head + 1) % 2 ^ 64 = s.queue.head + 1 :=
          Nat.mod_eq_of_lt (by unfold Threads.few at few; omega)
        simp only [small, List.take_add_one, stored, held, Option.toList_some]
      · simpa using held
    | _ => simpa [LockFreeQueue.access, LockFreeQueue.setNode] using held

end Sound

theorem init_sound {capacity : Nat} (positive : 0 < capacity) (small : capacity ≤ 2 ^ 63)
    (memory : Nat → Item) : (init capacity memory : Threads Item Thread).Sound := by
  have size := LockFreeQueue.new_capacity positive small memory
  have below : 2 ^ Nat.clog 2 capacity ≤ 2 ^ 63 :=
    Nat.pow_le_pow_right (by omega) ((Nat.clog_le_iff_le_pow (by omega)).mpr small)
  have node (i : Nat) (inside : i < (LockFreeQueue.new capacity memory).capacity) :
      i < 2 ^ 63 := by omega
  exact {
    power := ⟨_, size⟩
    mask := by
      show LockFreeQueue.maskOf capacity = (LockFreeQueue.new capacity memory).capacity - 1
      rw [size, LockFreeQueue.maskOf_eq positive (by omega)]
    tail := rfl
    order := Nat.le_refl _
    place := fun i inside => Nat.mod_eq_of_lt inside
    window := fun i inside => ⟨Nat.zero_le _, by simpa [init, LockFreeQueue.new] using inside⟩
    stage := fun i inside => .inr (.inr ⟨inside, rfl⟩)
    published := fun i inside same => by
      have less := node i inside
      simp only [init, LockFreeQueue.new] at same
      omega
    waiting := fun _ _ _ => Nat.zero_le _
    fits := fun _ _ found => by cases found
    apart := fun _ _ _ _ _ found => by cases found
    held := fun i _ early => absurd early (Nat.not_lt_zero i)
    taken := fun i _ early => absurd early (Nat.not_lt_zero i) }

variable [DecidableEq Thread]

theorem step_capacity {s next : Threads Item Thread} {e : ThreadEvent Item Thread}
    (taken : s.step e = .ok next) : next.queue.capacity = s.queue.capacity := by
  rcases step_cases taken with ⟨thread, op, _, _, rfl⟩ | ⟨thread, fails, call, _, _, rfl⟩
  · rfl
  · cases call with
    | pushSwap | popSwap =>
      simp only [act, LockFreeQueue.access]
      split <;> rfl
    | _ => rfl

/-- What holds after a run of any threads. -/
theorem run_sound {capacity : Nat} (positive : 0 < capacity) (small : capacity ≤ 2 ^ 63)
    {memory : Nat → Item} {events : List (ThreadEvent Item Thread)}
    (room : Guarded step (fun s _ => s.few) (init capacity memory) events)
    (reached : run step (init capacity memory) events = .ok s) :
    s.Sound ∧ s.popped = s.granted.take s.queue.head ∧
      s.queue.capacity = 2 ^ Nat.clog 2 capacity := by
  have keep (s : Threads Item Thread) (e : ThreadEvent Item Thread) (t : Threads Item Thread)
      (held : s.Sound ∧ s.popped = s.granted.take s.queue.head ∧
        s.queue.capacity = 2 ^ Nat.clog 2 capacity) (few : s.few) (taken : s.step e = .ok t) :
      t.Sound ∧ t.popped = t.granted.take t.queue.head ∧
        t.queue.capacity = 2 ^ Nat.clog 2 capacity :=
    ⟨held.1.step few taken, held.1.popped few held.2.1 taken,
      (step_capacity taken).trans held.2.2⟩
  exact room.invariant ⟨init_sound positive small memory, rfl,
    LockFreeQueue.new_capacity positive small memory⟩ keep reached

/-- However the accesses of any number of threads interleave, pops take what pushes stored,
each once and in the order in which the pushes took their places, at most a turn of the ring
lies between them, and no two calls use the node of a place of theirs at a time. -/
theorem pops_in_order (capacity : Nat) (memory : Nat → Item)
    (events : List (ThreadEvent Item Thread)) (positive : 0 < capacity)
    (small : capacity ≤ 2 ^ 63)
    (room : Guarded step (fun s _ => s.few) (init capacity memory) events)
    (reached : run step (init capacity memory) events = .ok s) :
    s.popped <+: s.granted ∧ s.granted.length ≤ s.popped.length + 2 ^ Nat.clog 2 capacity ∧
      ∀ first second a b i j, first ≠ second → s.calls first = some a →
        s.calls second = some b → a.place = some i → b.place = some j →
        i &&& s.queue.capacityMask ≠ j &&& s.queue.capacityMask := by
  obtain ⟨sound, held, size⟩ := run_sound positive small room reached
  have count := sound.tail
  have order := sound.order
  have turn := sound.granted_le
  refine ⟨held ▸ List.take_prefix .., ?_, ?_⟩
  · rw [held, List.length_take]
    omega
  · intro first second a b i j different left right leftPlace rightPlace
    rw [sound.index, sound.index]
    exact sound.nodes_ne different left right leftPlace rightPlace

instance (s : Threads Item Thread) : Decidable s.few := inferInstanceAs (Decidable (_ < _))

/-- Two threads push at a time while a third pops. -/
def crowded : List (ThreadEvent Nat (Fin 3)) :=
  [.begins 0 (.put 7), .begins 1 (.put 8), .begins 2 .take, .acts 0 false, .acts 1 false,
    .acts 0 false, .acts 1 false, .acts 1 false, .acts 0 false, .acts 1 false, .acts 1 false,
    .acts 0 false, .acts 2 false, .acts 2 false, .acts 2 true, .acts 2 false, .acts 2 false,
    .acts 2 false]

theorem pops_in_order_crowded :
    ∃ s, run step (init 2 fun _ => 0) crowded = .ok s ∧ s.popped = [8] ∧ s.popped <+: s.granted :=
  ⟨_, rfl, rfl, (pops_in_order 2 (fun _ => 0) crowded (by decide) (by decide) (by decide) rfl).1⟩

end Threads

end Quickshare
