import Quickshare.Server.QueueSpace

/-! What a plan adds to the queues: its packets for a client are appended in
order, each made from what the ring slot it gets held before. -/

namespace Quickshare

section Queue

variable {Item : Type} {q : Queue Item}

/-- The packets that fill the next slots, each made from what its slot holds. -/
def Queue.made (q : Queue Item) : List (Item → Item) → List Item
  | [] => []
  | f :: rest => f (q.items q.head) :: (q.pushed f).made rest

theorem Queue.Valid.pushed_contents (valid : q.Valid) (room : q.full ≠ true) (f : Item → Item) :
    (q.pushed f).contents = q.contents ++ [f (q.items q.head)] := by
  have taken : q.enqueue = some (q.head,
      { q with head := (q.head + 1) &&& (q.len - 1), count := q.count + 1 }) := if_neg room
  exact valid.enqueue_contents taken f

theorem Queue.made_length (q : Queue Item) (fs : List (Item → Item)) :
    (q.made fs).length = fs.length := by
  induction fs generalizing q with
  | nil => rfl
  | cons f rest ih => exact congrArg (· + 1) (ih _)

theorem Queue.made_forall {good : Item → Prop} (q : Queue Item) {fs : List (Item → Item)}
    (makes : ∀ f ∈ fs, ∀ old, good (f old)) : ∀ x ∈ q.made fs, good x := by
  induction fs generalizing q with
  | nil => exact nofun
  | cons f rest ih =>
    intro x member
    rcases List.mem_cons.mp member with rfl | later
    · exact makes f (List.mem_cons_self ..) _
    · exact ih _ (fun g listed => makes g (List.mem_cons_of_mem _ listed)) x later

theorem Queue.made_append (q : Queue Item) (first second : List (Item → Item)) :
    q.made (first ++ second) = q.made first ++ (first.foldl Queue.pushed q).made second := by
  induction first generalizing q with
  | nil => rfl
  | cons f rest ih => exact congrArg (f (q.items q.head) :: ·) (ih (q.pushed f))

end Queue

/-- What a plan has for `r`, in order. -/
def Plan.toward (plan : Plan) (r : Slot) : List (Packet → Packet) :=
  (plan.filter (·.1 = r)).map Prod.snd

theorem Plan.toward_append (first second : Plan) (i : Slot) :
    Plan.toward (first ++ second) i = first.toward i ++ second.toward i := by
  simp [Plan.toward]

theorem Plan.toward_length (plan : Plan) (i : Slot) :
    (plan.toward i).length = (plan.map Prod.fst).count i := by
  rw [Plan.toward, List.length_map, List.count, List.countP_map, List.countP_eq_length_filter]
  rfl

theorem Plan.toward_cons (send : Slot × (Packet → Packet)) (plan : Plan) (r : Slot) :
    Plan.toward (send :: plan) r = if send.1 = r then send.2 :: plan.toward r else plan.toward r := by
  by_cases here : send.1 = r <;> simp [toward, here]

variable {s t : Server} {plan : Plan}

theorem Server.pushed_queue (s : Server) (i r : Slot) (f : Packet → Packet) :
    ((s.pushed i f).client r).msgQueue =
      if i = r then (s.client r).msgQueue.pushed f else (s.client r).msgQueue := by
  by_cases here : i = r
  · subst here
    have kept := s.client_modify_self i fun c => { c with msgQueue := c.msgQueue.pushed f }
    rw [if_pos rfl]
    exact congrArg Client.msgQueue kept
  · rw [if_neg here, s.pushed_client_of_ne f (Ne.symm here)]

theorem Server.sendAll_queue (sent : s.sendAll plan = .ok t) (r : Slot) :
    (t.client r).msgQueue = (plan.toward r).foldl Queue.pushed (s.client r).msgQueue := by
  induction plan generalizing s with
  | nil =>
    cases sent
    rfl
  | cons head rest ih =>
    rw [Server.sendAll_cons] at sent
    split at sent
    · cases sent
    · rw [ih sent, Server.pushed_queue, Plan.toward_cons]
      split <;> rfl

theorem Server.sendAll_contents (valid : s.QueuesValid) (sent : s.sendAll plan = .ok t)
    (r : Slot) : (t.client r).msgQueue.contents =
      (s.client r).msgQueue.contents ++ (s.client r).msgQueue.made (plan.toward r) := by
  induction plan generalizing s with
  | nil =>
    cases sent
    simp [Plan.toward, Queue.made]
  | cons head rest ih =>
    obtain ⟨i, f⟩ := head
    rw [Server.sendAll_cons] at sent
    split at sent
    · cases sent
    · rename_i room
      rw [ih (valid.pushed room f) sent, Server.pushed_queue, Plan.toward_cons]
      by_cases here : i = r
      · subst here
        simp only [if_pos]
        rw [(valid i).pushed_contents room f, List.append_assoc]
        rfl
      · simp only [if_neg here]

/-- What a computation that sends `plan` leaves waiting. -/
theorem Sends.contents {db : Database} {r : Run Server} (sends : Sends s plan db r)
    (valid : s.QueuesValid) (done : r = .ok t) (i : Slot) :
    (t.client i).msgQueue.contents =
      (s.client i).msgQueue.contents ++ (s.client i).msgQueue.made (plan.toward i) := by
  obtain ⟨u, sent, rfl⟩ := sends.ok t done
  exact Server.sendAll_contents valid sent i

end Quickshare
