import Quickshare.Client.Emissions
import Quickshare.Client.Requests

/-! Files that stay open. A slot opens its file when it leaves EMPTY and closes
it only where its transfer completes, so every other way back to EMPTY leaves a
stream behind, as does a file that turns out empty. -/

namespace Quickshare

open Runs

/-- What has become of the streams of one `File_Manager`. -/
inductive FileUse where
  | closed
  | opened
  /-- A stream was opened over an open one, or closed twice. -/
  | leaked
  deriving DecidableEq, Repr

def FileUse.after : FileUse → FileAct → FileUse
  | .closed, .open _ _ => .opened
  | .opened, .close => .closed
  | .opened, .open _ _ | .closed, .close | .leaked, _ => .leaked
  | use, .write _ => use

namespace FileManager

def use (f : FileManager) : FileUse := f.acts.foldl FileUse.after .closed

theorem use_act {f g : FileManager} {act : FileAct} (acts : g.acts = f.acts ++ [act]) :
    g.use = f.use.after act := by
  rw [use, acts, List.foldl_append, List.foldl_cons, List.foldl_nil, use]

theorem use_same {f g : FileManager} (acts : g.acts = f.acts) : g.use = f.use := by
  rw [use, acts, use]

/-- `file_size` is 0 only for an empty file. -/
theorem size_eq_zero_iff (size : Int64) : size.toUInt64.toNat = 0 ↔ size = 0 := by
  constructor
  · intro zero
    have word : size.toUInt64 = 0 := UInt64.toNat_inj.mp zero
    calc size = size.toUInt64.toInt64 := rfl
      _ = 0 := by rw [word]; rfl
  · rintro rfl
    rfl

/-- An empty file is opened and refused. -/
theorem readFile_empty (f : FileManager) (path : List UInt8) {image : FileImage}
    (zero : image.size = 0) : ∃ g, f.readFile path (some image) = (false, g) ∧
      g.acts = f.acts ++ [.open .readFile path] := by
  refine ⟨_, by simp only [readFile, (size_eq_zero_iff _).mpr zero, if_true]; rfl, rfl⟩

/-- Any other file that is refused is not opened. -/
theorem readFile_refused {f g : FileManager} {path : List UInt8} {found : Option FileImage}
    (failed : f.readFile path found = (false, g)) : g.acts = f.acts ∨
      g.acts = f.acts ++ [.open .readFile path] ∧ ∃ image, found = some image ∧ image.size = 0 := by
  cases found with
  | none =>
    cases failed
    exact .inl rfl
  | some image =>
    simp only [readFile] at failed
    split at failed
    · rename_i zero
      cases failed
      exact .inr ⟨rfl, image, rfl, (size_eq_zero_iff _).mp zero⟩
    · cases failed

theorem readFile_opened {f g : FileManager} {path : List UInt8} {found : Option FileImage}
    (opened : f.readFile path found = (true, g)) :
    g.acts = f.acts ++ [.open .readFile path] ∧ g.fileFd ≠ none ∧ g.state = .working := by
  cases found with
  | none => cases opened
  | some image =>
    simp only [readFile] at opened
    split at opened
    · cases opened
    · cases opened
      exact ⟨rfl, by simp, rfl⟩

theorem writeFile_opened {f g : FileManager} {name : List UInt8} {size : Nat} {target : WriteTarget}
    (opened : f.writeFile name size target = (true, g)) :
    (∃ path, g.acts = f.acts ++ [.open .writeFile path]) ∧ g.fileFd ≠ none ∧ g.state = .working := by
  unfold writeFile at opened
  split at opened
  · cases opened
  · dsimp only at opened
    split at opened
    · cases opened
      exact ⟨⟨_, rfl⟩, by simp, rfl⟩
    · cases opened

theorem writeWork_kept {f g : FileManager} {data : Packet} {bytes : Option Nat}
    (wrote : f.writeWork data bytes = .ok g) :
    g.use = f.use ∧ (f.fileFd ≠ none → g.fileFd ≠ none) ∧ g.state = f.state := by
  unfold writeWork at wrote
  split at wrote
  · split at wrote
    · cases wrote
    · split at wrote
      · cases wrote
      · split at wrote
        · cases wrote
        · split at wrote
          · cases wrote
          · cases wrote
            refine ⟨?_, by simp, rfl⟩
            rw [use_act rfl]
            cases f.use <;> rfl
  · cases wrote
    exact ⟨rfl, id, rfl⟩

/-- The next block cannot be read. -/
def readFails (f : FileManager) (result : FRead) : Prop :=
  f.bufLen = 0 ∧ ∃ stream, f.fileFd = some stream ∧ (fread stream result).1 = [] ∧
    (fread stream result).2.failed = true

theorem readFromFile_open {f : FileManager} (p : Packet) (result : FRead) {stream : Stream}
    (held : f.fileFd = some stream) : ∃ going q g, f.readFromFile p result = .ok (going, q, g) ∧
      g.acts = f.acts ∧ g.fileFd ≠ none ∧ (g.state = f.state ∨ g.state = .complete) ∧
      (going = false ↔ f.readFails result) := by
  simp only [readFromFile, held]
  split
  · rename_i loads
    split
    · rename_i fails
      refine ⟨_, _, _, rfl, rfl, by simp, .inl rfl, ?_⟩
      exact iff_of_true rfl ⟨loads, stream, held, fails.1, fails.2⟩
    · rename_i reads
      have goes : ¬ f.readFails result := by
        rintro ⟨-, other, same, empty, failed⟩
        cases held.symm.trans same
        exact reads ⟨empty, failed⟩
      split
      · exact ⟨_, _, _, rfl, rfl, by simp, .inr rfl, iff_of_false (by simp) goes⟩
      · exact ⟨_, _, _, rfl, rfl, by simp, .inl rfl, iff_of_false (by simp) goes⟩
  · rename_i loaded
    refine ⟨_, _, _, rfl, rfl, by simp [held], .inl rfl, ?_⟩
    exact iff_of_false (by simp) fun fails => loaded fails.1

/-- `read_work` with an open file. -/
theorem readWork_open {f : FileManager} (p : Packet) (result : FRead) (working : f.state = .working)
    (opened : f.fileFd ≠ none) : ∃ state q g, f.readWork p result = .ok (state, q, g) ∧
      g.acts = f.acts ∧ g.fileFd ≠ none ∧ g.state = state ∧ state ≠ .empty ∧
      (state = .error ↔ f.readFails result) := by
  obtain ⟨stream, held⟩ := Option.ne_none_iff_exists'.mp opened
  obtain ⟨going, q, g, read, acts, open', state, fails⟩ := readFromFile_open p result held
  cases going with
  | false =>
    have done : f.readWork p result = .ok (.error, q, { g with state := .error }) := by
      simp only [readWork, working, read]
      rfl
    exact ⟨_, _, _, done, acts, open', rfl, by simp, iff_of_true rfl (fails.mp rfl)⟩
  | true =>
    have done : f.readWork p result = .ok (g.state, q, g) := by
      simp only [readWork, working, read]
      rfl
    have goes : ¬ f.readFails result := fun failed => by simpa using fails.mpr failed
    rw [working] at state
    refine ⟨_, _, _, done, acts, open', rfl, ?_, iff_of_false ?_ goes⟩
    · rcases state with same | same <;> simp [same]
    · rcases state with same | same <;> simp [same]

end FileManager

/-- An EMPTY slot has no open file, and any other has one. -/
structure ActiveTransfer.Tidy (t : ActiveTransfer) : Prop where
  idle : t.state = .empty → t.fManager.use = .closed
  busy : t.state ≠ .empty → t.fManager.use = .opened

/-- A slot at work has its file open. -/
def ActiveTransfer.opens (t : ActiveTransfer) : Prop :=
  t.state ≠ .empty → t.fManager.fileFd ≠ none ∧ t.fManager.state = .working

/-- A stream of the slot is, or will be, closed never or twice. -/
def ActiveTransfer.leaky (t : ActiveTransfer) : Prop :=
  t.fManager.use = .leaked ∨ t.state = .empty ∧ t.fManager.use = .opened

namespace TransferManager

variable {m k next : TransferManager} {env : WorkEnv} {e : ManagerEvent} {s : Slot}
variable {i : Fin simTransfersMax} {p : Packet}

/-- No EMPTY slot has an open file, and every stream closed was closed once. -/
def allClosed (m : TransferManager) : Prop :=
  ∀ s, (m.slot s).fManager.use ≠ .leaked ∧
    ((m.slot s).state = .empty → (m.slot s).fManager.use = .closed)

/-- The command opens a file that turns out empty. -/
def opensEmpty (env : WorkEnv) (m : TransferManager) : TransferCmd → Prop
  | .request req => (∃ i, (m.hostTransfers i).state = .empty) ∧
      ∃ image, env.files (TransferCmd.path req) = some image ∧ image.size = 0
  | _ => False

/-- One of the commands opens a file that turns out empty. -/
def commandsOpenEmpty (env : WorkEnv) : TransferManager → List TransferCmd → Prop
  | _, [] => False
  | m, cmd :: rest => opensEmpty env m cmd ∨ commandsOpenEmpty env (processCmd env m cmd) rest

/-- The slot whose turn it is gives its transfer up: it was cancelled or denied,
or its file cannot be read on. -/
def givesUp (m : TransferManager) (env : WorkEnv) : Prop :=
  match m.worker with
  | some (.host i) => (m.hostTransfers i).state = .cancel ∨
      (m.hostTransfers i).state = .active ∧
        1 ≤ (env.now - (m.hostTransfers i).pastSend).tdiv 1000000 ∧
        (m.hostTransfers i).fManager.readFails env.fread
  | some (.recv i) => (m.recvTransfers i).state = .cancel ∨ (m.recvTransfers i).state = .deny
  | none => False

/-- The event leaves a file open. -/
def leaves (m : TransferManager) : ManagerEvent → Prop
  | .cmd _ => False
  | .work env _ => commandsOpenEmpty env m m.cmdQueue ∨ (m.processCmds env).givesUp env
  | .packet _ p => p.type? = some .transferCancel ∧
      m.recvTransfers.search (cancels p.tId) ≠ none

structure Held (m : TransferManager) : Prop where
  opens : ∀ s, (m.slot s).opens
  tidy : ∀ s, (m.slot s).Tidy

theorem Held.allClosed (held : m.Held) : m.allClosed := by
  intro s
  refine ⟨?_, (held.tidy s).idle⟩
  intro leaked
  by_cases idle : (m.slot s).state = .empty
  · rw [(held.tidy s).idle idle] at leaked
    cases leaked
  · rw [(held.tidy s).busy idle] at leaked
    cases leaked

theorem not_allClosed (leaks : ∃ s, (m.slot s).leaky) : ¬ m.allClosed := by
  intro closed
  obtain ⟨s, leaked | ⟨idle, opened⟩⟩ := leaks
  · exact (closed s).1 leaked
  · rw [(closed s).2 idle] at opened
    cases opened

end TransferManager

namespace ActiveTransfer

variable {t u : ActiveTransfer}

theorem Tidy.closed (idle : t.state = .empty) (closed : t.fManager.use = .closed) : t.Tidy :=
  ⟨fun _ => closed, fun busy => absurd idle busy⟩

theorem Tidy.opened (busy : t.state ≠ .empty) (opened : t.fManager.use = .opened) : t.Tidy :=
  ⟨fun idle => absurd idle busy, fun _ => opened⟩

/-- A slot that stays at work with the same file. -/
theorem Tidy.kept (tidy : t.Tidy) (before : t.state ≠ .empty) (after : u.state ≠ .empty)
    (same : u.fManager.use = t.fManager.use) : u.Tidy :=
  .opened after (same.trans (tidy.busy before))

theorem opens_kept (opens : t.opens) (before : t.state ≠ .empty)
    (same : u.fManager = t.fManager) : u.opens := by
  intro _
  rw [same]
  exact opens before

theorem opens_empty (idle : t.state = .empty) : t.opens := fun busy => absurd idle busy

/-- What is left open stays so while the slot is at work. -/
theorem leaky_kept (leaks : t.leaky) (busy : t.state ≠ .empty)
    (same : u.fManager.use = t.fManager.use) : u.leaky := by
  rcases leaks with leaked | ⟨idle, -⟩
  · exact .inl (same.trans leaked)
  · exact absurd idle busy

/-- A stream opened over one left open is lost. -/
theorem leaky_open (leaks : t.leaky) {type : FileType} {path : List UInt8}
    (acts : u.fManager.acts = t.fManager.acts ++ [.open type path]) : u.leaky := by
  left
  rw [FileManager.use_act acts]
  rcases leaks with leaked | ⟨-, opened⟩
  · rw [leaked]
    rfl
  · rw [opened]
    rfl

theorem setRequest_fManager (t : ActiveTransfer) (cId : ClientId) (reply : Bool) :
    (t.setRequest cId reply).fManager = t.fManager := by
  have answered : (t.answered cId reply).fManager = t.fManager := by
    unfold ActiveTransfer.answered
    split <;> rfl
  unfold setRequest
  dsimp only
  split
  · exact answered
  · split <;> exact answered

theorem setRequest_busy (busy : t.state ≠ .empty) (cId : ClientId) (reply : Bool) :
    (t.setRequest cId reply).state ≠ .empty := by
  rcases t.setRequest_state cId reply with same | same | same
  · simp [same]
  · simp [same]
  · rwa [same]

theorem canCancel_busy (can : t.canCancel = true) : t.state ≠ .empty := by
  intro idle
  simp [canCancel, idle] at can

end ActiveTransfer

namespace TransferManager

variable {m k next : TransferManager} {env : WorkEnv} {e : ManagerEvent} {s : Slot}
variable {i : Fin simTransfersMax} {p : Packet} {cmd : TransferCmd}

/-! Commands -/

theorem Commanded.opens (done : Commanded k env cmd next) (opens : ∀ s, (k.slot s).opens) :
    ∀ s, (next.slot s).opens := by
  cases done with
  | unmet => exact opens
  | refused i idle failed =>
    exact modifySlot_forall (s := .host i) opens (ActiveTransfer.opens_empty idle)
  | requested i idle opened =>
    obtain ⟨-, file, working⟩ := FileManager.readFile_opened opened
    intro s
    rw [nextId_slot]
    exact modifySlot_forall (s := .host i) opens (fun _ => ⟨file, working⟩) s
  | @replied tId reply i asked =>
    have busy : (k.slot (.recv i)).state ≠ .empty := by simp [slot, asked]
    exact modifySlot_forall (s := .recv i) opens (ActiveTransfer.opens_kept (opens _) busy rfl)
  | cancelledRecv i found =>
    have busy := ActiveTransfer.canCancel_busy (cancels_canCancel (TransferArray.search_some found)).1
    exact modifySlot_forall (s := .recv i) opens
      (ActiveTransfer.opens_kept (opens (.recv i)) busy rfl)
  | cancelledHost i none found =>
    have busy := ActiveTransfer.canCancel_busy (cancels_canCancel (TransferArray.search_some found)).1
    exact modifySlot_forall (s := .host i) opens
      (ActiveTransfer.opens_kept (opens (.host i)) busy rfl)

/-- A command that opens no empty file leaves every slot tidy. -/
theorem Commanded.tidy (done : Commanded k env cmd next) (tidy : ∀ s, (k.slot s).Tidy)
    (full : ¬ opensEmpty env k cmd) : ∀ s, (next.slot s).Tidy := by
  cases done with
  | unmet => exact tidy
  | refused i idle failed =>
    have closed := (tidy (.host i)).idle idle
    rcases FileManager.readFile_refused failed with acts | ⟨-, empty⟩
    · refine modifySlot_forall (s := .host i) tidy (.closed idle ?_)
      exact (FileManager.use_same acts).trans closed
    · exact absurd ⟨⟨i, idle⟩, empty⟩ full
  | requested i idle opened =>
    have closed := (tidy (.host i)).idle idle
    intro s
    rw [nextId_slot]
    refine modifySlot_forall (s := .host i) tidy (.opened (by simp) ?_) s
    rw [FileManager.use_act (FileManager.readFile_opened opened).1]
    exact congrArg (FileUse.after · _) closed
  | @replied tId reply i asked =>
    have busy : (k.slot (.recv i)).state ≠ .empty := by simp [slot, asked]
    refine modifySlot_forall (s := .recv i) tidy ((tidy _).kept busy ?_ rfl)
    cases reply <;> simp
  | cancelledRecv i found =>
    have busy := ActiveTransfer.canCancel_busy (cancels_canCancel (TransferArray.search_some found)).1
    exact modifySlot_forall (s := .recv i) tidy ((tidy (.recv i)).kept busy (by simp) rfl)
  | cancelledHost i none found =>
    have busy := ActiveTransfer.canCancel_busy (cancels_canCancel (TransferArray.search_some found)).1
    exact modifySlot_forall (s := .host i) tidy ((tidy (.host i)).kept busy (by simp) rfl)

/-- What is left open stays so. -/
theorem Commanded.leaky (done : Commanded k env cmd next) (leaks : ∃ s, (k.slot s).leaky) :
    ∃ s, (next.slot s).leaky := by
  cases done with
  | unmet => exact leaks
  | refused i idle failed =>
    refine modifySlot_exists (s := .host i) leaks fun here => ?_
    rcases FileManager.readFile_refused failed with acts | ⟨acts, -⟩
    · rcases here with leaked | ⟨_, opened⟩
      · exact .inl ((FileManager.use_same acts).trans leaked)
      · exact .inr ⟨idle, (FileManager.use_same acts).trans opened⟩
    · exact ActiveTransfer.leaky_open here acts
  | requested i idle opened =>
    obtain ⟨acts, -⟩ := FileManager.readFile_opened opened
    simp only [nextId_slot]
    exact modifySlot_exists (s := .host i) leaks fun here => ActiveTransfer.leaky_open here acts
  | @replied tId reply i asked =>
    have busy : (k.slot (.recv i)).state ≠ .empty := by simp [slot, asked]
    exact modifySlot_exists (s := .recv i) leaks fun here => ActiveTransfer.leaky_kept here busy rfl
  | cancelledRecv i found =>
    have busy := ActiveTransfer.canCancel_busy (cancels_canCancel (TransferArray.search_some found)).1
    exact modifySlot_exists (s := .recv i) leaks fun here => ActiveTransfer.leaky_kept here busy rfl
  | cancelledHost i none found =>
    have busy := ActiveTransfer.canCancel_busy (cancels_canCancel (TransferArray.search_some found)).1
    exact modifySlot_exists (s := .host i) leaks fun here => ActiveTransfer.leaky_kept here busy rfl

/-- A command that opens an empty file leaves it open. -/
theorem opensEmpty_leaky (tidy : ∀ s, (k.slot s).Tidy) (empties : opensEmpty env k cmd) :
    ∃ s, ((processCmd env k cmd).slot s).leaky := by
  cases cmd with
  | request req =>
    obtain ⟨⟨free, idle⟩, image, named, zero⟩ := empties
    cases found : getTransfer k.hostTransfers with
    | none =>
      have absent := TransferArray.search_none found free
      simp [idle] at absent
    | some i =>
      have here : (k.hostTransfers i).state = .empty := by
        simpa using TransferArray.search_some found
      obtain ⟨g, refused, acts⟩ := FileManager.readFile_empty (k.hostTransfers i).fManager
        (TransferCmd.path req) zero
      have done : processCmd env k (.request req) = k.modifyHost i fun t => { t with fManager := g } := by
        simp only [processCmd, cmdHostRequest, found, named, refused, Bool.false_eq_true, if_false]
      rw [done]
      refine ⟨.host i, ?_⟩
      simp only [slot, modifyHost_self]
      refine .inr ⟨here, ?_⟩
      have closed : (k.hostTransfers i).fManager.use = .closed := (tidy (.host i)).idle here
      rw [FileManager.use_act acts, closed]
      rfl
  | reply => exact empties.elim
  | cancel => exact empties.elim

/-- The commands keep the slots tidy unless one opens an empty file, which stays open. -/
theorem processCmds_tidy (m : TransferManager) (env : WorkEnv) (tidy : ∀ s, (m.slot s).Tidy) :
    (¬ commandsOpenEmpty env m m.cmdQueue → ∀ s, ((m.processCmds env).slot s).Tidy) ∧
      (commandsOpenEmpty env m m.cmdQueue → ∃ s, ((m.processCmds env).slot s).leaky) := by
  have lost (cmds : List TransferCmd) (k : TransferManager) (leaks : ∃ s, (k.slot s).leaky) :
      ∃ s, ((cmds.foldl (processCmd env) k).slot s).leaky := by
    induction cmds generalizing k with
    | nil => exact leaks
    | cons cmd rest ih => exact ih _ ((processCmd_commanded env k cmd).leaky leaks)
  have fold (cmds : List TransferCmd) (k : TransferManager) (tidy : ∀ s, (k.slot s).Tidy) :
      (¬ commandsOpenEmpty env k cmds → ∀ s, ((cmds.foldl (processCmd env) k).slot s).Tidy) ∧
        (commandsOpenEmpty env k cmds → ∃ s, ((cmds.foldl (processCmd env) k).slot s).leaky) := by
    induction cmds generalizing k with
    | nil => exact ⟨fun _ => tidy, fun none => none.elim⟩
    | cons cmd rest ih =>
      by_cases empties : opensEmpty env k cmd
      · refine ⟨fun full => absurd (.inl empties) full, fun _ => ?_⟩
        exact lost rest _ (opensEmpty_leaky tidy empties)
      · obtain ⟨kept, left⟩ := ih _ ((processCmd_commanded env k cmd).tidy tidy empties)
        refine ⟨fun full => kept fun later => full (.inr later), ?_⟩
        rintro (here | later)
        · exact absurd here empties
        · exact left later
  exact fold m.cmdQueue m tidy

theorem processCmds_opens (m : TransferManager) (env : WorkEnv) (opens : ∀ s, (m.slot s).opens) :
    ∀ s, ((m.processCmds env).slot s).opens := by
  refine processCmds_rule (P := fun k => ∀ s, (k.slot s).opens) m env opens ?_ ?_
  · intro k cmd next _ opens done
    exact done.opens opens
  · intro k opens s
    cases s with
    | host i => exact opens (.host i)
    | recv i => exact opens (.recv i)

/-! The work after the commands -/

/-- `read_work` of a host slot at work, whatever came of it. -/
theorem readWork_opens (opens : ∀ s, (k.slot s).opens) (active : (k.hostTransfers i).state = .active)
    (read : (k.hostTransfers i).fManager.readWork p result = .ok (state, q, f)) :
    f.use = (k.hostTransfers i).fManager.use ∧ f.fileFd ≠ none ∧ f.state = state ∧
      state ≠ .empty ∧ (state = .error ↔ (k.hostTransfers i).fManager.readFails result) := by
  have busy : (k.slot (.host i)).state ≠ .empty := by simp [slot, active]
  obtain ⟨file, working⟩ := opens (.host i) busy
  obtain ⟨state', q', g, done, acts, kept, same, some, fails⟩ :=
    FileManager.readWork_open p result working file
  have equal := done.symm.trans read
  simp only [Except.ok.injEq, Prod.mk.injEq] at equal
  obtain ⟨rfl, rfl, rfl⟩ := equal
  exact ⟨FileManager.use_same acts, kept, same, some, fails⟩

theorem Worked.opens {emitted : Option (Slot × Packet)} (worked : Worked k env p emitted next)
    (opens : ∀ s, (k.slot s).opens) : ∀ s, (next.slot s).opens := by
  cases worked with
  | nothing => exact opens
  | request i asked =>
    have busy : (k.slot (.host i)).state ≠ .empty := by simp [slot, asked]
    exact modifySlot_forall (s := .host i) opens (ActiveTransfer.opens_kept (opens _) busy rfl)
  | data i active read =>
    obtain ⟨-, file, working, -⟩ := readWork_opens opens active read
    exact modifySlot_forall (s := .host i) opens fun _ => ⟨file, working⟩
  | cancelHost i => exact modifySlot_forall (s := .host i) opens (ActiveTransfer.opens_empty rfl)
  | complete i =>
    intro s
    rw [pushBacklog_slot]
    refine modifySlot_forall (s := .host i) opens ?_ s
    exact ActiveTransfer.opens_empty rfl
  | failed i =>
    intro s
    rw [pushBacklog_slot]
    refine modifySlot_forall (s := .host i) opens ?_ s
    exact ActiveTransfer.opens_empty rfl
  | cancelRecv i => exact modifySlot_forall (s := .recv i) opens (ActiveTransfer.opens_empty rfl)
  | deny i => exact modifySlot_forall (s := .recv i) opens (ActiveTransfer.opens_empty rfl)
  | accept i accepted =>
    have busy : (k.slot (.recv i)).state ≠ .empty := by simp [slot, accepted]
    exact modifySlot_forall (s := .recv i) opens (ActiveTransfer.opens_kept (opens _) busy rfl)

/-- Where no slot gives its transfer up, the work leaves every slot tidy. -/
theorem Worked.tidy {emitted : Option (Slot × Packet)} (worked : Worked k env p emitted next)
    (turn : ∀ s q, emitted = some (s, q) → k.worker = some s) (opens : ∀ s, (k.slot s).opens)
    (tidy : ∀ s, (k.slot s).Tidy) (keeps : ¬ k.givesUp env) : ∀ s, (next.slot s).Tidy := by
  cases worked with
  | nothing => exact tidy
  | request i asked =>
    have busy : (k.slot (.host i)).state ≠ .empty := by simp [slot, asked]
    exact modifySlot_forall (s := .host i) tidy ((tidy _).kept busy (by simp) rfl)
  | data i active read =>
    have busy : (k.slot (.host i)).state ≠ .empty := by simp [slot, active]
    obtain ⟨same, -⟩ := readWork_opens opens active read
    exact modifySlot_forall (s := .host i) tidy ((tidy _).kept busy busy same)
  | complete i active read =>
    have busy : (k.slot (.host i)).state ≠ .empty := by simp [slot, active]
    obtain ⟨same, -⟩ := readWork_opens opens active read
    have opened := same.trans ((tidy (.host i)).busy busy)
    intro s
    rw [pushBacklog_slot]
    refine modifySlot_forall (s := .host i) tidy ?_ s
    refine .closed rfl ?_
    exact (FileManager.use_act rfl).trans (congrArg (FileUse.after · .close) opened)
  | failed i active ripe read stopped =>
    exfalso
    obtain ⟨-, -, -, some, fails⟩ := readWork_opens opens active read
    apply keeps
    simp only [givesUp, turn _ _ rfl]
    rcases stopped with error | empty
    · exact .inr ⟨active, by omega, fails.mp error⟩
    · exact absurd empty some
  | cancelHost i cancelled =>
    exfalso
    apply keeps
    simp only [givesUp, turn _ _ rfl]
    exact .inl cancelled
  | cancelRecv i cancelled =>
    exfalso
    apply keeps
    simp only [givesUp, turn _ _ rfl]
    exact .inl cancelled
  | deny i denied =>
    exfalso
    apply keeps
    simp only [givesUp, turn _ _ rfl]
    exact .inr denied
  | accept i accepted =>
    have busy : (k.slot (.recv i)).state ≠ .empty := by simp [slot, accepted]
    exact modifySlot_forall (s := .recv i) tidy ((tidy _).kept busy (by simp) rfl)

/-- A slot that goes without its file being closed. -/
theorem leaky_zeroed {t u : ActiveTransfer} (busy : t.state ≠ .empty) (holds : t.Tidy ∨ t.leaky)
    (idle : u.state = .empty) (kept : u.fManager.use = t.fManager.use) : u.leaky := by
  rcases holds with tidy | leaks
  · exact .inr ⟨idle, kept.trans (tidy.busy busy)⟩
  · exact ActiveTransfer.leaky_kept leaks busy kept

/-- What the commands left open stays so. -/
theorem Worked.leaky {emitted : Option (Slot × Packet)} (worked : Worked k env p emitted next)
    (opens : ∀ s, (k.slot s).opens) (leaks : ∃ s, (k.slot s).leaky) : ∃ s, (next.slot s).leaky := by
  cases worked with
  | nothing => exact leaks
  | request i asked =>
    have busy : (k.slot (.host i)).state ≠ .empty := by simp [slot, asked]
    exact modifySlot_exists (s := .host i) leaks fun here => ActiveTransfer.leaky_kept here busy rfl
  | data i active read =>
    have busy : (k.slot (.host i)).state ≠ .empty := by simp [slot, active]
    obtain ⟨same, -⟩ := readWork_opens opens active read
    exact modifySlot_exists (s := .host i) leaks fun here => ActiveTransfer.leaky_kept here busy same
  | complete i active read =>
    have busy : (k.slot (.host i)).state ≠ .empty := by simp [slot, active]
    obtain ⟨same, -⟩ := readWork_opens opens active read
    simp only [pushBacklog_slot]
    refine modifySlot_exists (s := .host i) leaks fun here => .inl ?_
    rcases here with leaked | ⟨idle, -⟩
    · exact (FileManager.use_act rfl).trans (congrArg (FileUse.after · .close) (same.trans leaked))
    · exact absurd idle busy
  | failed i active ripe read =>
    have busy : (k.slot (.host i)).state ≠ .empty := by simp [slot, active]
    obtain ⟨same, -⟩ := readWork_opens opens active read
    simp only [pushBacklog_slot]
    refine modifySlot_exists (s := .host i) leaks fun here => ?_
    exact leaky_zeroed busy (.inr here) rfl same
  | cancelHost i cancelled =>
    have busy : (k.slot (.host i)).state ≠ .empty := by simp [slot, cancelled]
    simp only [pushBacklog_slot]
    exact modifySlot_exists (s := .host i) leaks fun here => leaky_zeroed busy (.inr here) rfl rfl
  | cancelRecv i cancelled =>
    have busy : (k.slot (.recv i)).state ≠ .empty := by simp [slot, cancelled]
    simp only [pushBacklog_slot]
    exact modifySlot_exists (s := .recv i) leaks fun here => leaky_zeroed busy (.inr here) rfl rfl
  | deny i denied =>
    have busy : (k.slot (.recv i)).state ≠ .empty := by simp [slot, denied]
    simp only [pushBacklog_slot]
    exact modifySlot_exists (s := .recv i) leaks fun here => leaky_zeroed busy (.inr here) rfl rfl
  | accept i accepted =>
    have busy : (k.slot (.recv i)).state ≠ .empty := by simp [slot, accepted]
    exact modifySlot_exists (s := .recv i) leaks fun here => ActiveTransfer.leaky_kept here busy rfl

/-- A slot that gives its transfer up leaves its file open. -/
theorem givesUp_leaky {work : WorkState} {packet : Packet}
    (done : m.doWork env p = .ok (work, packet, next))
    (opens : ∀ s, ((m.processCmds env).slot s).opens) (tidy : ∀ s, ((m.processCmds env).slot s).Tidy)
    (gives : (m.processCmds env).givesUp env) : ∃ s, (next.slot s).leaky := by
  have moves := doWork_worked done
  generalize m.processCmds env = k at opens tidy gives moves
  have changed {s : Slot} {f : ActiveTransfer → ActiveTransfer} {state : InfoState} {file : List UInt8}
      (busy : (k.slot s).state ≠ .empty) (idle : (f (k.slot s)).state = .empty)
      (kept : (f (k.slot s)).fManager.use = (k.slot s).fManager.use) :
      ∃ r, (((k.modifySlot s f).pushBacklog state file).slot r).leaky := by
    refine ⟨s, ?_⟩
    rw [pushBacklog_slot, modifySlot_self]
    exact leaky_zeroed busy (.inl (tidy s)) idle kept
  rcases moves with ⟨worked, busy⟩ | ⟨absent, worked⟩
  · cases worked with
    | idle => exact absurd rfl busy
    | wait i found active early =>
      simp only [givesUp, worker, found, active] at gives
      rcases gives with cancelled | ⟨-, ripe, -⟩
      · cases cancelled
      · omega
    | request i found asked => simp [givesUp, worker, found, asked] at gives
    | data i found active read =>
      obtain ⟨-, -, -, -, fails⟩ := readWork_opens opens active read
      simp only [givesUp, worker, found, active] at gives
      rcases gives with cancelled | ⟨-, -, stuck⟩
      · cases cancelled
      · cases fails.mpr stuck
    | complete i found active read =>
      obtain ⟨-, -, -, -, fails⟩ := readWork_opens opens active read
      simp only [givesUp, worker, found, active] at gives
      rcases gives with cancelled | ⟨-, -, stuck⟩
      · cases cancelled
      · cases fails.mpr stuck
    | cancel i found cancelled =>
      exact changed (s := .host i) (by simp [slot, cancelled]) rfl rfl
    | failed i found active ripe read =>
      obtain ⟨same, -⟩ := readWork_opens opens active read
      have here : (k.slot (.host i)).state ≠ .empty := by simp [slot, active]
      refine ⟨.host i, ?_⟩
      rw [pushBacklog_slot]
      simp only [slot, modifyHost_self]
      exact leaky_zeroed here (.inl (tidy (.host i))) rfl same
  · cases worked with
    | idle none => simp [givesUp, worker, absent, none] at gives
    | cancel i found cancelled =>
      exact changed (s := .recv i) (by simp [slot, cancelled]) rfl rfl
    | accept i found accepted => simp [givesUp, worker, absent, found, accepted] at gives
    | deny i found denied =>
      exact changed (s := .recv i) (by simp [slot, denied]) rfl rfl

/-- With its files open `do_work` does not stop the client. -/
theorem step_work_total (m : TransferManager) (p : Packet) (env : WorkEnv)
    (opens : ∀ s, ((m.processCmds env).slot s).opens) : ∃ work packet next,
      m.doWork env p = .ok (work, packet, next) ∧ m.step (.work env p) = .ok next := by
  have hosted : ∃ r, (m.processCmds env).hostTransferWork env p = .ok r := by
    generalize m.processCmds env = k at opens
    unfold hostTransferWork
    split
    · exact ⟨_, rfl⟩
    · rename_i i found
      split
      · rename_i active
        have busy : (k.slot (.host i)).state ≠ .empty := by simp [slot, active]
        obtain ⟨file, working⟩ := opens (.host i) busy
        obtain ⟨state, q, f, read, -⟩ := FileManager.readWork_open p env.fread working file
        have done : (k.hostTransfers i).fManager.readWork p env.fread = .ok (state, q, f) := read
        unfold sendData
        split
        · exact ⟨_, rfl⟩
        · rw [done]
          exact ⟨_, rfl⟩
      · exact ⟨_, rfl⟩
      · exact ⟨_, rfl⟩
  obtain ⟨⟨work, packet, next⟩, hosted⟩ := hosted
  have done : m.doWork env p = if work = .noWork then .ok (next.recvTransferWork packet)
      else .ok (work, packet, next) := by
    simp only [doWork, hosted]
    rfl
  split at done
  · exact ⟨_, _, _, done, by simp only [step, done]; rfl⟩
  · exact ⟨_, _, _, done, by simp only [step, done]; rfl⟩

/-! Packets -/

theorem PacketHandled.opens {env : PacketEnv} (handled : PacketHandled m env p next)
    (opens : ∀ s, (m.slot s).opens) : ∀ s, (next.slot s).opens := by
  cases handled with
  | ignored => exact opens
  | requested i type idle named opened =>
    obtain ⟨-, file, working⟩ := FileManager.writeFile_opened opened
    exact modifySlot_forall (s := .recv i) opens fun _ => ⟨file, working⟩
  | valid i type waits =>
    have busy : (m.slot (.host i)).state ≠ .empty := by simp [slot, waits]
    exact modifySlot_forall (s := .host i) opens (ActiveTransfer.opens_kept (opens _) busy rfl)
  | invalid i type waits =>
    have busy : (m.slot (.host i)).state ≠ .empty := by simp [slot, waits]
    exact modifySlot_forall (s := .host i) opens (ActiveTransfer.opens_kept (opens _) busy rfl)
  | dropped i =>
    intro s
    rw [pushBacklog_slot]
    refine modifySlot_forall (s := .recv i) opens ?_ s
    exact ActiveTransfer.opens_empty rfl
  | left i type none found =>
    have busy := ActiveTransfer.canCancel_busy (cancels_canCancel (TransferArray.search_some found)).1
    exact modifySlot_forall (s := .host i) opens (ActiveTransfer.opens_kept (opens (.host i)) busy
      (ActiveTransfer.setRequest_fManager _ _ _))
  | replied i type pending =>
    have busy : (m.slot (.host i)).state ≠ .empty := by simp [slot, pending]
    exact modifySlot_forall (s := .host i) opens (ActiveTransfer.opens_kept (opens (.host i)) busy
      (ActiveTransfer.setRequest_fManager _ _ _))
  | written i type active named wrote =>
    have busy : (m.slot (.recv i)).state ≠ .empty := by simp [slot, active]
    obtain ⟨file, working⟩ := opens (.recv i) busy
    obtain ⟨-, kept, same⟩ := FileManager.writeWork_kept wrote
    exact modifySlot_forall (s := .recv i) opens fun _ => ⟨kept file, same.trans working⟩
  | completed i =>
    intro s
    rw [pushBacklog_slot]
    refine modifySlot_forall (s := .recv i) opens ?_ s
    exact ActiveTransfer.opens_empty rfl

/-- Packets but for a cancel of a receive slot leave every slot tidy. -/
theorem PacketHandled.tidy {env : PacketEnv} (handled : PacketHandled m env p next)
    (tidy : ∀ s, (m.slot s).Tidy) (keeps : ¬ m.leaves (.packet env p)) :
    ∀ s, (next.slot s).Tidy := by
  cases handled with
  | ignored => exact tidy
  | requested i type idle named opened =>
    obtain ⟨⟨path, acts⟩, -⟩ := FileManager.writeFile_opened opened
    have closed := (tidy (.recv i)).idle idle
    refine modifySlot_forall (s := .recv i) tidy (.opened (by simp) ?_)
    exact (FileManager.use_act acts).trans (congrArg (FileUse.after · _) closed)
  | valid i type waits =>
    have busy : (m.slot (.host i)).state ≠ .empty := by simp [slot, waits]
    exact modifySlot_forall (s := .host i) tidy ((tidy _).kept busy (by simp) rfl)
  | invalid i type waits =>
    have busy : (m.slot (.host i)).state ≠ .empty := by simp [slot, waits]
    exact modifySlot_forall (s := .host i) tidy ((tidy _).kept busy (by simp) rfl)
  | dropped i type found =>
    refine absurd ⟨type, ?_⟩ keeps
    simp [found]
  | left i type none found =>
    have busy := ActiveTransfer.canCancel_busy (cancels_canCancel (TransferArray.search_some found)).1
    exact modifySlot_forall (s := .host i) tidy ((tidy (.host i)).kept busy
      (ActiveTransfer.setRequest_busy busy _ _) (congrArg _ (ActiveTransfer.setRequest_fManager _ _ _)))
  | replied i type pending =>
    have busy : (m.slot (.host i)).state ≠ .empty := by simp [slot, pending]
    exact modifySlot_forall (s := .host i) tidy ((tidy (.host i)).kept busy
      (ActiveTransfer.setRequest_busy busy _ _) (congrArg _ (ActiveTransfer.setRequest_fManager _ _ _)))
  | written i type active named wrote =>
    have busy : (m.slot (.recv i)).state ≠ .empty := by simp [slot, active]
    exact modifySlot_forall (s := .recv i) tidy ((tidy (.recv i)).kept busy busy
      (FileManager.writeWork_kept wrote).1)
  | completed i type found =>
    have active := TransferArray.search_some found
    simp only [completes, decide_eq_true_eq] at active
    have busy : (m.slot (.recv i)).state ≠ .empty := by simp [slot, active.1]
    have opened := (tidy (.recv i)).busy busy
    intro s
    rw [pushBacklog_slot]
    refine modifySlot_forall (s := .recv i) tidy ?_ s
    refine .closed rfl ?_
    exact (FileManager.use_act rfl).trans (congrArg (FileUse.after · .close) opened)

/-! Runs -/

theorem Held.step (held : m.Held) (keeps : ¬ m.leaves e) (taken : m.step e = .ok next) :
    next.Held := by
  cases e with
  | cmd cmd =>
    cases taken
    obtain ⟨recv, host⟩ := sendCmd_slots m cmd
    have same (s : Slot) : (m.sendCmd cmd).2.slot s = m.slot s := by
      cases s <;> simp only [slot, recv, host]
    constructor
    · intro s
      rw [same]
      exact held.opens s
    · intro s
      rw [same]
      exact held.tidy s
  | work env p =>
    have worked := step_worked taken
    have opens := processCmds_opens m env held.opens
    have tidy := (processCmds_tidy m env held.tidy).1 fun empties => keeps (.inl empties)
    refine ⟨worked.opens opens, worked.tidy ?_ opens tidy fun gives => keeps (.inr gives)⟩
    intro s q emits
    exact emission_worker emits
  | packet env p =>
    have handled := handle_handled taken
    exact ⟨handled.opens held.opens, handled.tidy held.tidy keeps⟩

/-- An event that leaves a file open can always happen, and no later event closes it. -/
theorem Held.leaves_leaky (held : m.Held) (leaves : m.leaves e) :
    ∃ next, m.step e = .ok next ∧ ∃ s, (next.slot s).leaky := by
  cases e with
  | cmd cmd => exact leaves.elim
  | work env p =>
    have opens := processCmds_opens m env held.opens
    obtain ⟨kept, left⟩ := processCmds_tidy m env held.tidy
    obtain ⟨work, packet, next, done, taken⟩ := step_work_total m p env opens
    refine ⟨next, taken, ?_⟩
    by_cases empties : commandsOpenEmpty env m m.cmdQueue
    · exact (step_worked taken).leaky opens (left empties)
    · rcases leaves with empties' | gives
      · exact absurd empties' empties
      · exact givesUp_leaky done opens (kept empties) gives
  | packet env p =>
    obtain ⟨type, found⟩ := leaves
    obtain ⟨i, found⟩ := Option.ne_none_iff_exists'.mp found
    have handled : m.step (.packet env p) = .ok
        ((m.modifyRecv i ActiveTransfer.zeroed).pushBacklog .cancelled (m.recvTransfers i).file) := by
      have searched : m.recvTransfers.search (cancels p.hdr.tId) = some i := found
      simp only [TransferManager.step, handle, type, recvCancel, searched]
    refine ⟨_, handled, .recv i, ?_⟩
    have busy := ActiveTransfer.canCancel_busy (cancels_canCancel (TransferArray.search_some found)).1
    rw [pushBacklog_slot]
    simp only [slot, modifyRecv_self]
    exact leaky_zeroed busy (.inl (held.tidy (.recv i))) rfl rfl

/-- In every state of a run no EMPTY slot has an open file, and every stream
closed was closed once, exactly if no event of the run leaves a file open. -/
theorem allClosed_iff (events : List ManagerEvent) :
    Throughout step allClosed .init events ↔ Guarded step (fun m e => ¬ m.leaves e) .init events := by
  have start : Held .init := by
    constructor
    · intro s
      cases s <;> exact ActiveTransfer.opens_empty rfl
    · intro s
      cases s <;> exact .closed rfl rfl
  apply throughout_iff_guarded start
  · intro m e next held keeps taken
    exact held.step keeps taken
  · intro m held
    exact held.allClosed
  · intro m e held missed
    obtain ⟨next, taken, leaks⟩ := held.leaves_leaky (not_not.mp missed)
    exact ⟨next, taken, not_allClosed leaks⟩

end TransferManager

/-- A cancel of an offer empties its slot and leaves its file open. -/
theorem cancel_leaves_open : ¬ ∀ events : List ManagerEvent,
    Throughout TransferManager.step TransferManager.allClosed .init events := by
  intro all
  let events : List ManagerEvent := [.packet .opening fileOffer, .packet .opening offerCancel]
  have left : ((run TransferManager.step .init events).toOption.any fun m =>
      (m.recvTransfers 0).state = .empty ∧ (m.recvTransfers 0).fManager.use ≠ .closed) = true := by
    decide +kernel
  cases ended : run TransferManager.step .init events with
  | error fault => simp [ended, Except.toOption] at left
  | ok m =>
    simp only [ended, Except.toOption, Option.any_some, decide_eq_true_eq] at left
    exact left.2 (((all events).final ended (.recv 0)).2 left.1)

end Quickshare
