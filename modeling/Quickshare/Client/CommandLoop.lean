import Quickshare.Client.SoleProducer
import Quickshare.Client.TransferManager

/-! `send_cmd` runs in the thread that draws the window, `process_cmds` in that of the
network. Commands pass between them through the lock-free queue while both run. -/

namespace Quickshare

open Fifo Runs Function

/-- The two threads of the client. -/
inductive Side where
  | gui
  | network
  deriving DecidableEq

/-- Where the network thread is in `process_cmds`. -/
inductive CmdStage where
  | outside
  | peeking (env : WorkEnv)
  | popping (env : WorkEnv)

/-- `cmd_queue` with its two threads, and the manager. The commands are in `threads`; the
manager's own `cmdQueue` stays empty. -/
structure CommandLoop where
  threads : Threads TransferCmd Side
  stage : CmdStage
  manager : TransferManager
  /-- What `process_cmds` handled (kept for specifications). -/
  handled : List TransferCmd
  /-- The manager when `process_cmds` was last entered, and what it has handled since
  (kept for specifications). -/
  entered : TransferManager
  round : List TransferCmd

inductive CommandEvent where
  /-- The window calls `send_cmd`. -/
  | send (cmd : TransferCmd)
  /-- The next access of that call. -/
  | gui (fails : Bool)
  /-- The network thread calls `process_cmds`. -/
  | enter (env : WorkEnv)
  /-- The next access of the call it is in. -/
  | network (fails : Bool)
  /-- The network thread changes the manager outside `process_cmds`. -/
  | works (manager : TransferManager)

namespace CommandLoop

def init (memory : Nat → TransferCmd) : CommandLoop :=
  ⟨.init transferQueueMax memory, .outside, .init, [], .init, []⟩

/-- The network thread goes on with the result of a call. -/
def resume (s : CommandLoop) (result : Returned TransferCmd) : CommandLoop :=
  match s.stage, result with
  | .peeking env, .peeked (some cmd) =>
    { s with
      threads := { s.threads with calls := update s.threads.calls .network (some .pop) }
      stage := .popping env
      manager := s.manager.processCmd env cmd
      handled := s.handled ++ [cmd]
      round := s.round ++ [cmd] }
  | .peeking _, _ => { s with stage := .outside }
  | .popping env, _ =>
    { s with
      threads := { s.threads with calls := update s.threads.calls .network (some .peek) }
      stage := .peeking env }
  | .outside, _ => s

def step (s : CommandLoop) : CommandEvent → Except Misuse CommandLoop
  | .send cmd => do
    let threads ← s.threads.step (.begins .gui (.put cmd))
    return { s with threads }
  | .gui fails => do
    let threads ← s.threads.step (.acts .gui fails)
    return { s with threads }
  | .enter env => match s.stage with
    | .outside => do
      let threads ← s.threads.step (.begins .network .look)
      return { s with threads, stage := .peeking env, entered := s.manager, round := [] }
    | _ => .error .busy
  | .network fails => match s.threads.calls .network with
    | none => .error .idle
    | some call =>
      let next := { s with threads := s.threads.act .network fails call }
      match (s.threads.queue.access fails call).2 with
      | .inl _ => .ok next
      | .inr result => .ok (next.resume result)
  | .works manager => match s.stage with
    | .outside => .ok { s with manager := { manager with cmdQueue := [] } }
    | _ => .error .busy

/-- What `send_cmd` has taken, as it returned `true`. -/
def taken : Op TransferCmd × Returned TransferCmd → Option TransferCmd
  | (.put cmd, .pushed true) => some cmd
  | _ => none

def accepted (s : CommandLoop) : List TransferCmd := s.threads.returns.filterMap taken

/-- What `cmd_queue` holds. -/
def waiting (s : CommandLoop) : List TransferCmd := s.threads.items .gui .network

/-- The call of the network thread belongs to its place in `process_cmds`, and nothing is
lost or done twice. -/
structure Sound (s : CommandLoop) : Prop where
  threads : s.threads.Sound
  current : s.threads.AllCurrent .gui .network
  size : s.threads.queue.capacity = 8
  outside : s.stage = .outside → s.threads.calls .network = none
  peeking : ∀ env, s.stage = .peeking env →
    ∃ call, s.threads.calls .network = some call ∧ call.op = .look
  popping : ∀ env, s.stage = .popping env →
    ∃ call, s.threads.calls .network = some call ∧ call.op = .take
  whole : (∀ env, s.stage ≠ .popping env) → s.accepted = s.handled ++ s.waiting
  held : ∀ env, s.stage = .popping env → ∃ before cmd rest, s.handled = before ++ [cmd] ∧
    s.waiting = cmd :: rest ∧ s.accepted = s.handled ++ rest
  empty : s.manager.cmdQueue = []
  rounds : ∀ env, s.stage = .peeking env ∨ s.stage = .popping env →
    s.entered.cmdQueue = [] ∧ s.manager = s.round.foldl (TransferManager.processCmd env) s.entered

end CommandLoop

/-- A call goes on as the same operation. -/
theorem LockFreeQueue.access_op {Item : Type u} {q : LockFreeQueue Item} {fails : Bool}
    {call next : Call Item} (goes : (q.access fails call).2 = .inl next) : next.op = call.op := by
  cases call with
  | push | peek | pop | pushCopy =>
    cases goes
    rfl
  | pushCheck | peekCheck | popCheck | pushSwap | popSwap =>
    simp only [access] at goes
    split at goes <;> cases goes <;> rfl
  | _ => cases goes

/-- Commands that are handled do not touch the queue. -/
theorem TransferManager.processCmd_queue (m : TransferManager) (env : WorkEnv)
    (cmd : TransferCmd) (cmds : List TransferCmd) :
    processCmd env { m with cmdQueue := cmds } cmd =
      { processCmd env m cmd with cmdQueue := cmds } := by
  cases cmd with
  | request req =>
    simp only [processCmd, cmdHostRequest, modifyHost]
    split
    · rfl
    · split <;> rfl
  | reply tId reply =>
    simp only [processCmd, cmdRecvRequestReply, modifyRecv]
    split <;> rfl
  | cancel tId =>
    simp only [processCmd, cmdCancel, modifyRecv, modifyHost]
    split
    · rfl
    · split <;> rfl

theorem TransferManager.processCmd_cmdQueue (m : TransferManager) (env : WorkEnv)
    (cmd : TransferCmd) : (processCmd env m cmd).cmdQueue = m.cmdQueue := by
  have same := congrArg cmdQueue (processCmd_queue m env cmd m.cmdQueue)
  exact same

namespace CommandLoop

variable {s next : CommandLoop}

/-- The queue as a bounded one. -/
theorem Sound.view (sound : s.Sound) : ∃ f : Bounded TransferCmd 8, f.items = s.waiting :=
  ⟨⟨s.waiting, sound.size ▸ Threads.items_length_le sound.current sound.threads⟩, rfl⟩

/-- What goes on between two returns changes neither the commands nor the manager. -/
theorem Sound.quiet (sound : s.Sound) {threads : Threads TransferCmd Side}
    (kept : threads.Sound) (current : threads.AllCurrent .gui .network)
    (size : threads.queue.capacity = 8) (returns : threads.returns = s.threads.returns)
    (items : threads.items .gui .network = s.waiting)
    (call : ∀ call, s.threads.calls .network = some call →
      ∃ c, threads.calls .network = some c ∧ c.op = call.op)
    (none : s.threads.calls .network = none → threads.calls .network = none) :
    Sound { s with threads } := by
  refine { sound with threads := kept, current, size, outside := ?_, peeking := ?_,
                      popping := ?_, whole := ?_, held := ?_ }
  · exact fun stage => none (sound.outside stage)
  · intro env stage
    obtain ⟨old, found, op⟩ := sound.peeking env stage
    obtain ⟨c, there, same⟩ := call old found
    exact ⟨c, there, same.trans op⟩
  · intro env stage
    obtain ⟨old, found, op⟩ := sound.popping env stage
    obtain ⟨c, there, same⟩ := call old found
    exact ⟨c, there, same.trans op⟩
  · intro stage
    simpa [accepted, waiting, returns, items] using sound.whole stage
  · intro env stage
    simpa [accepted, waiting, returns, items] using sound.held env stage

/-- The window's calls leave the network thread where it is. -/
theorem Sound.gui (sound : s.Sound) (few : s.threads.few) {fails : Bool}
    {threads : Threads TransferCmd Side} (taken : s.threads.step (.acts .gui fails) = .ok threads) :
    Sound { s with threads } := by
  have kept := sound.threads.step few taken
  have current := sound.current.step sound.threads few (e := .acts .gui fails) trivial taken
  have size := (Threads.step_capacity taken).trans sound.size
  rcases Threads.step_cases taken with ⟨_, _, same, _⟩ | ⟨thread, fails, call, same, found, rfl⟩
  · cases same
  · cases same
    have network : (s.threads.act .gui fails call).calls .network = s.threads.calls .network := by
      simp [Threads.act]
    cases after : (s.threads.queue.access fails call).2 with
    | inl next =>
      exact sound.quiet kept current size (by simp [Threads.act, after])
        (Threads.act_items sound.current sound.threads few found after)
        (fun c there => ⟨c, network ▸ there, rfl⟩) (fun there => network ▸ there)
    | inr r =>
      obtain ⟨f, view⟩ := sound.view
      obtain ⟨data, op⟩ : ∃ data, call.op = .put data := by
        have role := sound.current _ _ found
        cases call with
        | push data | pushCheck data | pushSwap data | pushCopy data | pushPublish data =>
          exact ⟨data, rfl⟩
        | _ => simp [Threads.Current] at role
      have answer := Threads.act_answer sound.size view sound.current sound.threads found after
      have log := Threads.act_returns s.threads Side.gui after
      rw [op] at answer log
      obtain ⟨rfl, items⟩ := answer
      have more : ∃ cmds, waiting { s with threads := s.threads.act .gui fails call } = s.waiting ++ cmds ∧
          accepted { s with threads := s.threads.act .gui fails call } = s.accepted ++ cmds := by
        simp only [accepted, waiting, log, List.filterMap_append, List.filterMap_cons, List.filterMap_nil]
        cases pushed : f.push data with
        | none =>
          simp only [Bounded.apply, pushed] at items
          exact ⟨[], by rw [← items, view, List.append_nil, waiting], by
            simp [Bounded.apply, pushed, Returned.of, CommandLoop.taken]⟩
        | some g =>
          simp only [Bounded.apply, pushed] at items
          exact ⟨[data], by rw [← items, Bounded.push_items pushed, view, waiting], by
            simp [Bounded.apply, pushed, Returned.of, CommandLoop.taken]⟩
      obtain ⟨cmds, now, all⟩ := more
      refine { sound with threads := kept, current, size, outside := ?_, peeking := ?_,
                          popping := ?_, whole := ?_, held := ?_ }
      · exact fun stage => network ▸ sound.outside stage
      · exact fun env stage => network ▸ sound.peeking env stage
      · exact fun env stage => network ▸ sound.popping env stage
      · intro stage
        rw [all, sound.whole stage, now, List.append_assoc]
      · intro env stage
        obtain ⟨before, cmd, rest, handled, waits, accepts⟩ := sound.held env stage
        refine ⟨before, cmd, rest ++ cmds, handled, ?_, ?_⟩
        · rw [now, waits, List.cons_append]
        · rw [all, accepts, List.append_assoc]

/-- What the network thread's call returns concerns the commands that wait. -/
theorem Sound.answer (sound : s.Sound) {fails : Bool} {call : Call TransferCmd}
    {r : Returned TransferCmd} (found : s.threads.calls .network = some call)
    (after : (s.threads.queue.access fails call).2 = .inr r) :
    (call.op = .look → r = .peeked s.waiting.head? ∧
      (s.threads.act .network fails call).items .gui .network = s.waiting) ∧
    (call.op = .take → r = .popped s.waiting.head?.isSome ∧
      (s.threads.act .network fails call).items .gui .network = s.waiting.tail) := by
  obtain ⟨f, view⟩ := sound.view
  have answer := Threads.act_answer sound.size view sound.current sound.threads found after
  constructor
  · intro op
    rw [op] at answer
    exact ⟨view ▸ answer.1, view ▸ answer.2.symm⟩
  · intro op
    rw [op] at answer
    exact ⟨view ▸ answer.1, view ▸ answer.2.symm⟩

/-- The network thread looks at a command, handles it and only then takes it out. -/
theorem Sound.network (sound : s.Sound) (few : s.threads.few) {fails : Bool}
    (taken : s.step (.network fails) = .ok next) : next.Sound := by
  simp only [step] at taken
  split at taken
  · cases taken
  · rename_i call found
    have acts : s.threads.step (.acts .network fails) = .ok (s.threads.act .network fails call) := by
      simp [Threads.step, found]
    have kept := sound.threads.step few acts
    have current := sound.current.step sound.threads few (e := .acts .network fails) trivial acts
    have size := (Threads.step_capacity acts).trans sound.size
    split at taken
    · rename_i after goes
      cases taken
      refine sound.quiet kept current size (by simp [Threads.act, goes])
        (Threads.act_items sound.current sound.threads few found goes) (fun old there => ?_)
        (fun none => by cases found.symm.trans none)
      cases found.symm.trans there
      exact ⟨after, by simp [Threads.act, goes], LockFreeQueue.access_op goes⟩
    · rename_i r after
      cases taken
      obtain ⟨looks, takes⟩ := sound.answer found after
      have log := Threads.act_returns s.threads Side.network after
      have idle : (s.threads.act .network fails call).calls .network = none := by
        simp [Threads.act, after]
      cases stage : s.stage with
      | outside =>
        cases found.symm.trans (sound.outside stage)
      | peeking env =>
        obtain ⟨old, there, op⟩ := sound.peeking env stage
        cases found.symm.trans there
        obtain ⟨rfl, items⟩ := looks op
        have all : (s.threads.act .network fails call).returns.filterMap CommandLoop.taken =
            s.accepted := by
          simp [accepted, log, op, CommandLoop.taken]
        have whole := sound.whole (by simp [stage])
        have round := sound.rounds env (.inl stage)
        cases waits : s.waiting with
        | nil =>
          simp only [resume, List.head?_nil]
          exact { threads := kept
                  current
                  size
                  outside := fun _ => idle
                  peeking := fun _ same => by cases same
                  popping := fun _ same => by cases same
                  whole := fun _ => all.trans (whole.trans (congrArg (s.handled ++ ·) items.symm))
                  held := fun _ same => by cases same
                  empty := sound.empty
                  rounds := fun _ same => by rcases same with same | same <;> cases same }
        | cons cmd rest =>
          have held : (s.threads.act .network fails call).items .gui .network = cmd :: rest :=
            items.trans waits
          simp only [resume, List.head?_cons]
          exact { threads := kept.begins idle .take
                  current := current.begins .take rfl
                  size
                  outside := fun same => by cases same
                  peeking := fun _ same => by cases same
                  popping := fun _ _ => ⟨.pop, by simp, rfl⟩
                  whole := fun other => absurd rfl (other env)
                  held := fun _ _ => ⟨s.handled, cmd, rest, rfl,
                    (Threads.items_update rfl rfl (by rw [idle]; rfl) (by rw [idle]; rfl)).trans held,
                    all.trans (whole.trans (by rw [waits, List.append_cons]))⟩
                  empty := (TransferManager.processCmd_cmdQueue ..).trans sound.empty
                  rounds := fun other same => by
                    rcases same with same | same
                    · cases same
                    · cases same
                      refine ⟨round.1, ?_⟩
                      rw [List.foldl_append, ← round.2]
                      rfl }
      | popping env =>
        obtain ⟨old, there, op⟩ := sound.popping env stage
        cases found.symm.trans there
        obtain ⟨rfl, items⟩ := takes op
        obtain ⟨before, cmd, rest, handled, waits, accepts⟩ := sound.held env stage
        have all : (s.threads.act .network fails call).returns.filterMap CommandLoop.taken =
            s.accepted := by
          simp [accepted, log, op, CommandLoop.taken]
        have held : (s.threads.act .network fails call).items .gui .network = rest := by
          rw [items, waits, List.tail_cons]
        simp only [resume]
        exact { threads := kept.begins idle .look
                current := current.begins .look rfl
                size
                outside := fun same => by cases same
                peeking := fun _ _ => ⟨.peek, by simp, rfl⟩
                popping := fun _ same => by cases same
                whole := fun _ => all.trans (accepts.trans (congrArg (s.handled ++ ·)
                  ((Threads.items_update rfl rfl (by rw [idle]; rfl)
                    (by rw [idle]; rfl)).trans held).symm))
                held := fun _ same => by cases same
                empty := sound.empty
                rounds := fun other same => by
                  rcases same with same | same
                  · cases same
                    exact sound.rounds env (.inr stage)
                  · cases same }

theorem begins_items {threads : Threads TransferCmd Side} {thread : Side}
    {op : Op TransferCmd} (taken : s.threads.step (.begins thread op) = .ok threads) :
    s.threads.calls thread = none ∧ threads =
      { s.threads with calls := update s.threads.calls thread (some (.start op)) } ∧
      threads.items .gui .network = s.waiting := by
  rcases Threads.step_cases taken with ⟨thread, op, same, idle, rfl⟩ | ⟨_, _, _, same, _⟩
  · cases same
    refine ⟨idle, rfl, Threads.items_update rfl rfl ?_ ?_⟩
    · rw [idle]
      cases op <;> rfl
    · rw [idle]
      cases op <;> rfl
  · cases same

theorem Sound.step (sound : s.Sound) (few : s.threads.few) {e : CommandEvent}
    (taken : s.step e = .ok next) : next.Sound := by
  cases e with
  | send cmd =>
    obtain ⟨threads, begun, same⟩ := bind_ok taken
    cases same
    obtain ⟨idle, rfl, items⟩ := begins_items begun
    exact sound.quiet (sound.threads.begins idle _) (sound.current.begins _ rfl) sound.size rfl
      items (fun c there => ⟨c, by simpa using there, rfl⟩) (fun none => by simpa using none)
  | gui fails =>
    obtain ⟨threads, acted, same⟩ := bind_ok taken
    cases same
    exact sound.gui few acted
  | enter env =>
    simp only [CommandLoop.step] at taken
    split at taken
    · rename_i stage
      obtain ⟨threads, begun, same⟩ := bind_ok taken
      cases same
      obtain ⟨idle, rfl, items⟩ := begins_items begun
      have whole := sound.whole (by simp [stage])
      exact { threads := sound.threads.begins idle _
              current := sound.current.begins .look rfl
              size := sound.size
              outside := fun same => by cases same
              peeking := fun _ _ => ⟨.peek, by simp [Call.start], rfl⟩
              popping := fun _ same => by cases same
              whole := fun _ => whole.trans (congrArg (s.handled ++ ·) items.symm)
              held := fun _ same => by cases same
              empty := sound.empty
              rounds := fun other same => by
                rcases same with same | same
                · exact ⟨sound.empty, rfl⟩
                · cases same }
    · cases taken
  | network fails => exact sound.network few taken
  | works manager =>
    simp only [CommandLoop.step] at taken
    split at taken
    · rename_i stage
      cases taken
      exact { sound with
              empty := rfl
              rounds := fun _ same => by rcases same with same | same <;> simp [stage] at same }
    · cases taken

/-- What has been handled when `process_cmds` returns. -/
def returnsDone (s : CommandLoop) (e : CommandEvent) : Prop :=
  ∀ env next, s.step e = .ok next → s.stage = .peeking env → next.stage = .outside →
    next.accepted = next.handled ∧
      next.manager = { s.entered with cmdQueue := s.round }.processCmds env

/-- Only a look at an empty queue ends `process_cmds`. -/
theorem Sound.leaves (sound : s.Sound) {e : CommandEvent} (taken : s.step e = .ok next)
    {env : WorkEnv} (inside : s.stage = .peeking env) (outside : next.stage = .outside) :
    s.waiting = [] ∧ next.waiting = [] ∧ next.manager = s.manager := by
  cases e with
  | send cmd | gui fails =>
    obtain ⟨threads, _, same⟩ := bind_ok taken
    cases same
    cases inside.symm.trans outside
  | enter | works =>
    simp [CommandLoop.step, inside] at taken
  | network fails =>
    simp only [CommandLoop.step] at taken
    split at taken
    · cases taken
    · rename_i call found
      split at taken
      · cases taken
        cases inside.symm.trans outside
      · rename_i r after
        cases taken
        obtain ⟨old, there, op⟩ := sound.peeking env inside
        cases found.symm.trans there
        obtain ⟨rfl, items⟩ := (sound.answer found after).1 op
        cases waits : s.waiting with
        | nil =>
          simp only [resume, inside, List.head?_nil]
          exact ⟨trivial, items.trans waits, trivial⟩
        | cons cmd rest =>
          simp [resume, inside, waits] at outside

theorem foldl_queue (env : WorkEnv) (cmds queue : List TransferCmd) (m : TransferManager) :
    cmds.foldl (TransferManager.processCmd env) { m with cmdQueue := queue } =
      { cmds.foldl (TransferManager.processCmd env) m with cmdQueue := queue } := by
  induction cmds generalizing m with
  | nil => rfl
  | cons cmd rest ih =>
    rw [List.foldl_cons, List.foldl_cons, TransferManager.processCmd_queue, ih]

theorem Sound.returns (sound : s.Sound) (few : s.threads.few) (e : CommandEvent) :
    s.returnsDone e := by
  intro env next taken inside outside
  have kept := sound.step few taken
  have whole := kept.whole (by simp [outside])
  obtain ⟨empty, none, same⟩ := sound.leaves taken inside outside
  obtain ⟨clean, folded⟩ := sound.rounds env (.inl inside)
  refine ⟨by rw [whole, none, List.append_nil], ?_⟩
  rw [same, TransferManager.processCmds, foldl_queue, ← folded, ← sound.empty]

theorem init_sound (memory : Nat → TransferCmd) : (init memory).Sound where
  threads := Threads.init_sound (by decide) (by decide) memory
  current := fun _ _ found => by cases found
  size := LockFreeQueue.new_capacity (by decide) (by decide) memory
  outside := fun _ => rfl
  peeking := fun _ same => by cases same
  popping := fun _ same => by cases same
  whole := fun _ => rfl
  held := fun _ same => by cases same
  empty := rfl
  rounds := fun _ same => by rcases same with same | same <;> cases same

theorem Sound.waits (sound : s.Sound) :
    ∃ waiting, s.accepted = s.handled ++ waiting ∧ waiting.length ≤ 8 := by
  have most : s.waiting.length ≤ 8 :=
    sound.size ▸ Threads.items_length_le sound.current sound.threads
  cases stage : s.stage with
  | popping env =>
    obtain ⟨before, cmd, rest, _, waits, accepts⟩ := sound.held env stage
    exact ⟨rest, accepts, by rw [waits, List.length_cons] at most; omega⟩
  | _ => exact ⟨s.waiting, sound.whole (by simp [stage]), most⟩

/-- However the window's calls of `send_cmd` and the network thread's runs of `process_cmds`
interleave, the commands that `send_cmd` took are handled once each and in order, at most
eight wait, and each run ends when none is left and with the manager that handling its
commands at once would give. -/
theorem handled_once (memory : Nat → TransferCmd) (events : List CommandEvent)
    (room : Guarded step (fun s _ => s.threads.few) (init memory) events) :
    Throughout step (fun s => ∃ waiting, s.accepted = s.handled ++ waiting ∧
        waiting.length ≤ 8) (init memory) events ∧
      Guarded step returnsDone (init memory) events := by
  have keep (s : CommandLoop) (e : CommandEvent) (t : CommandLoop) (sound : s.Sound)
      (few : s.threads.few) (taken : s.step e = .ok t) : t.Sound := sound.step few taken
  exact ⟨room.throughout (init_sound memory) keep fun _ sound => sound.waits,
    room.transfer (init_sound memory) keep fun _ e sound few => sound.returns few e⟩

/-- A command is sent while the network thread looks for one. -/
def cancelling : List CommandEvent :=
  [.send (.cancel 5), .gui false, .gui false, .enter ⟨fun _ => none, 0, 0, .none⟩, .gui false, .gui false,
    .network false, .gui false, .network false, .network false, .network false, .network false,
    .network false, .network false, .network false, .network false]

theorem handled_once_cancelling :
    Guarded step returnsDone (init fun _ => .cancel 0) cancelling ∧
    ∃ s, run step (init fun _ => .cancel 0) cancelling = .ok s ∧ s.handled.length = 1 :=
  ⟨(handled_once (fun _ => .cancel 0) cancelling (by decide)).2, _, rfl, rfl⟩

end CommandLoop

end Quickshare
