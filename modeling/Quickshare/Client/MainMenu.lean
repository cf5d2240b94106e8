import Quickshare.Client.Conformance
import Quickshare.Client.OpenFiles

/-! `Main_Menu::transfer`: the selected users and the chosen path go into a
command, which the network thread turns into a request. -/

namespace Quickshare

open Runs Bytes

/-- A path as the file dialog returns it. -/
structure ChosenPath where
  bytes : List UInt8
  text : 0 ∉ bytes

/-- `User` as the list box shows it. -/
structure ListedUser extends User where
  selected : Bool
  deriving DecidableEq

structure MainMenu where
  userList : List ListedUser
  filePath : Option ChosenPath

/-- What stops the user interface. -/
inductive MenuFault where
  /-- A write behind `t_id`. -/
  | outOfBounds
  /-- `assert(send_cmd(cmd))`. -/
  | queueFull
  deriving DecidableEq, Repr

/-- `Transfer_Cmd(filepath, to)`; `old` is what the memory held before. -/
def TransferCmd.newRequest (old : Mem cmdRequestSize) (filepath : List UInt8)
    (ids : Fin transferClientsMax → ClientId) : Mem cmdRequestSize :=
  (List.finRange transferClientsMax).foldl
    (fun (req : Mem cmdRequestSize) i => req.storeInt64 (2 * fileNameLen + 8 * i.val) (ids i))
    (old.write 0 ((filepath ++ [0]).take (2 * fileNameLen)))

namespace MainMenu

/-- The first loop of `transfer`: `t_id[count++] = c.id`. -/
def collect (tId : Fin transferClientsMax → ClientId) (count : Nat) :
    List ListedUser → Except MenuFault ((Fin transferClientsMax → ClientId) × Nat)
  | [] => .ok (tId, count)
  | c :: rest =>
    if c.selected then
      if inside : count < transferClientsMax then
        collect (Function.update tId ⟨count, inside⟩ c.id) (count + 1) rest
      else .error .outOfBounds
    else collect tId count rest

def transfer (menu : MainMenu) (m : TransferManager) (old : Mem cmdRequestSize) :
    Except MenuFault (MainMenu × TransferManager) := do
  let (tId, count) ← collect (fun _ => 0) 0 menu.userList
  match menu.filePath with
  | none => return (menu, m)
  | some path =>
    if count = 0 then return (menu, m)
    else
      let (sent, m) := m.sendCmd (.request (TransferCmd.newRequest old path.bytes tId))
      if sent then
        return ({ menu with userList := menu.userList.map fun c => { c with selected := false } }, m)
      else .error .queueFull

/-- The ids of the selected users of a list, in order. -/
def selectedOf (users : List ListedUser) : List ClientId :=
  (users.filter (·.selected)).map fun c => c.id

def selectedIds (menu : MainMenu) : List ClientId := selectedOf menu.userList

end MainMenu

/-- A slot that hosts the file for these recipients, and has yet to send its request. -/
structure ActiveTransfer.Hosts (t u : ActiveTransfer) (path : List UInt8) (ids : List ClientId) :
    Prop where
  asks : u.state = .sendReq
  opened : u.fManager.acts = t.fManager.acts ++ [.open .readFile path]
  request : ∀ packet, (TransferManager.requestPacket u packet).type? = some .transferRequest ∧
    ∀ j : Fin transferClientsMax, (TransferManager.requestPacket u packet).hdrTo j = ids.getD j 0

namespace TransferManager

/-- What `cmd_host_request` makes of a command: without a free slot it reads nothing
of it; else the path ends within its field, and the slot stays free, or hosts the
chosen file and emits one request. -/
def hostsChosen (k : TransferManager) (env : WorkEnv) (req : Mem cmdRequestSize)
    (path : List UInt8) (ids : List ClientId) : Prop :=
  match getTransfer k.hostTransfers with
  | none => k.cmdHostRequest env req = k
  | some i =>
    0 ∈ req.read 0 (2 * fileNameLen) ∧
      (∀ j, j ≠ i → (k.cmdHostRequest env req).hostTransfers j = k.hostTransfers j) ∧
      (((k.cmdHostRequest env req).hostTransfers i).state = .empty ∨
        (k.hostTransfers i).Hosts ((k.cmdHostRequest env req).hostTransfers i) path ids ∧
          ∀ packet, (((k.cmdHostRequest env req).sendRequest i packet).2.hostTransfers i).state =
            .getResponse)

end TransferManager

/-- `transfer` writes inside `t_id`, and queues nothing, or one command that, when
its turn comes, hosts what was chosen. -/
def MainMenu.delivers (menu : MainMenu) (m : TransferManager) (old : Mem cmdRequestSize) : Prop :=
  match menu.transfer m old with
  | .error .outOfBounds => False
  | .error .queueFull => True
  | .ok (_, next) => next = m ∨ ∃ path req, menu.filePath = some path ∧
      next = { m with cmdQueue := m.cmdQueue ++ [.request req] } ∧
      ∀ k env, TransferManager.hostsChosen k env req path.bytes menu.selectedIds

/-! The command holds what was chosen -/

section Commands

variable {old req : Mem cmdRequestSize} {path : List UInt8} {ids : Fin transferClientsMax → ClientId}

theorem TransferCmd.recipients_new (i : Fin transferClientsMax) :
    TransferCmd.recipients (TransferCmd.newRequest old path ids) i = ids i := by
  rw [TransferCmd.recipients, TransferCmd.newRequest, Mem.loadInt64_words _ (by decide)]

theorem TransferCmd.field_new {w : Nat} (inside : w ≤ 2 * fileNameLen) :
    (TransferCmd.newRequest old path ids).read 0 w =
      (old.write 0 ((path ++ [0]).take (2 * fileNameLen))).read 0 w :=
  Mem.read_words_apart _ _ (.inl (by omega))

/-- A short path is stored with its end. -/
theorem TransferCmd.short_new (short : path.length < 2 * fileNameLen) :
    (TransferCmd.newRequest old path ids).read 0 (path.length + 1) = path ++ [0] := by
  have whole : (path ++ [0]).take (2 * fileNameLen) = path ++ [0] :=
    List.take_of_length_le (by simp; omega)
  have limits : cmdRequestSize = 2 * fileNameLen + 8 * transferClientsMax := rfl
  have stored := old.read_write (path ++ [0])
    (show 0 + (path ++ [0]).length ≤ cmdRequestSize by simp; omega)
  rw [TransferCmd.field_new (by omega), whole]
  simpa using stored

/-- Of a long path no end is stored. -/
theorem TransferCmd.long_new (text : 0 ∉ path) (long : 2 * fileNameLen ≤ path.length) :
    0 ∉ (TransferCmd.newRequest old path ids).read 0 (2 * fileNameLen) := by
  have cut : (path ++ [0]).take (2 * fileNameLen) = path.take (2 * fileNameLen) :=
    List.take_append_of_le_length long
  have length : (path.take (2 * fileNameLen)).length = 2 * fileNameLen := by simp [long]
  have limits : cmdRequestSize = 2 * fileNameLen + 8 * transferClientsMax := rfl
  have stored := old.read_write (path.take (2 * fileNameLen))
    (show 0 + (path.take (2 * fileNameLen)).length ≤ cmdRequestSize by omega)
  rw [length] at stored
  rw [TransferCmd.field_new le_rfl, cut, stored]
  exact fun member => text (List.mem_of_mem_take member)

theorem cString_end (text : 0 ∉ path) (rest : List UInt8) : cString (path ++ 0 :: rest) = path := by
  have all : ∀ b ∈ path, decide (b ≠ 0) = true := by
    intro b member
    rw [decide_eq_true_eq]
    rintro rfl
    exact text member
  rw [cString, List.takeWhile_append_of_pos all]
  simp

/-- The path read from a command is the chosen one. -/
theorem TransferCmd.path_new (text : 0 ∉ path) (short : path.length < 2 * fileNameLen) :
    TransferCmd.path (TransferCmd.newRequest old path ids) = path := by
  obtain ⟨rest, more⟩ := Nat.exists_eq_add_of_le (show path.length + 1 ≤ cmdRequestSize by
    have limits : cmdRequestSize = 2 * fileNameLen + 8 * transferClientsMax := rfl
    omega)
  have split := (TransferCmd.newRequest old path ids).read_add 0 (path.length + 1) rest
  rw [← more, TransferCmd.short_new short, List.append_assoc] at split
  rw [TransferCmd.path, split]
  exact cString_end text _

theorem TransferCmd.ends_new (short : path.length < 2 * fileNameLen) :
    0 ∈ (TransferCmd.newRequest old path ids).read 0 (2 * fileNameLen) := by
  obtain ⟨rest, more⟩ := Nat.exists_eq_add_of_le (show path.length + 1 ≤ 2 * fileNameLen from short)
  have split := (TransferCmd.newRequest old path ids).read_add 0 (path.length + 1) rest
  rw [← more, TransferCmd.short_new short] at split
  rw [split]
  simp

end Commands

/-! The loop over the users -/

namespace MainMenu

variable {users : List ListedUser} {tId : Fin transferClientsMax → ClientId} {count : Nat}

/-- Selected users that fit are written one behind the other. -/
theorem collect_fits (fits : count + (selectedOf users).length ≤ transferClientsMax) :
    ∃ next, collect tId count users = .ok (next, count + (selectedOf users).length) ∧
      ∀ j, next j = if count ≤ j.val then (selectedOf users).getD (j.val - count) (tId j) else tId j := by
  induction users generalizing tId count with
  | nil => exact ⟨tId, rfl, fun j => by simp [selectedOf]⟩
  | cons c rest ih =>
    by_cases chosen : c.selected = true
    · have ids : selectedOf (c :: rest) = c.id :: selectedOf rest := by simp [selectedOf, chosen]
      rw [ids, List.length_cons] at fits
      have inside : count < transferClientsMax := by omega
      obtain ⟨next, done, entries⟩ := @ih (Function.update tId ⟨count, inside⟩ c.id) (count + 1)
        (by omega)
      refine ⟨next, ?_, fun j => ?_⟩
      · rw [collect, if_pos chosen, dif_pos inside, done, ids, List.length_cons]
        congr 2
        omega
      · rw [entries j, ids]
        by_cases here : j = ⟨count, inside⟩
        · subst here
          simp
        · have apart : j.val ≠ count := fun same => here (Fin.ext same)
          rw [Function.update_of_ne here]
          by_cases later : count ≤ j.val
          · obtain ⟨k, place⟩ : ∃ k, j.val - count = k + 1 := ⟨j.val - count - 1, by omega⟩
            have behind : j.val - (count + 1) = k := by omega
            rw [if_pos (by omega), if_pos later, place, behind, List.getD_cons_succ]
          · rw [if_neg (by omega), if_neg later]
    · have ids : selectedOf (c :: rest) = selectedOf rest := by simp [selectedOf, chosen]
      rw [collect, if_neg chosen, ids]
      exact ih (by rwa [ids] at fits)

/-- The write behind the last entry. -/
theorem collect_overflows (bound : count ≤ transferClientsMax)
    (many : transferClientsMax < count + (selectedOf users).length) :
    collect tId count users = .error .outOfBounds := by
  induction users generalizing tId count with
  | nil =>
    simp [selectedOf] at many
    omega
  | cons c rest ih =>
    by_cases chosen : c.selected = true
    · have ids : selectedOf (c :: rest) = c.id :: selectedOf rest := by simp [selectedOf, chosen]
      rw [ids, List.length_cons] at many
      rw [collect, if_pos chosen]
      by_cases inside : count < transferClientsMax
      · rw [dif_pos inside]
        exact ih inside (by omega)
      · rw [dif_neg inside]
    · have ids : selectedOf (c :: rest) = selectedOf rest := by simp [selectedOf, chosen]
      rw [collect, if_neg chosen]
      exact ih bound (by rwa [ids] at many)

end MainMenu

/-! The command when its turn comes -/

theorem TransferManager.requestPacket_hdrTo (t : ActiveTransfer) (packet : Packet)
    (j : Fin transferClientsMax) :
    (TransferManager.requestPacket t packet).hdrTo j = t.hdr.recipients j := by
  rw [TransferManager.requestPacket, Packet.hdrTo, Packet.setHdr, Mem.loadInt64_words _ (by decide)]

namespace TransferManager

variable {k : TransferManager} {env : WorkEnv} {old : Mem cmdRequestSize} {path : List UInt8}
variable {ids : List ClientId} {tId : Fin transferClientsMax → ClientId}

/-- A command that holds a short path and the ids hosts what was chosen. -/
theorem hostsChosen_short (k : TransferManager) (env : WorkEnv) (text : 0 ∉ path)
    (short : path.length < 2 * fileNameLen) (listed : ∀ j, tId j = ids.getD j 0) :
    k.hostsChosen env (TransferCmd.newRequest old path tId) path ids := by
  have chosen : TransferCmd.path (TransferCmd.newRequest old path tId) = path :=
    TransferCmd.path_new text short
  unfold hostsChosen
  cases found : getTransfer k.hostTransfers with
  | none => simp only [cmdHostRequest, found]
  | some i =>
    have idle : (k.hostTransfers i).state = .empty := by
      simpa using TransferArray.search_some found
    refine ⟨TransferCmd.ends_new short, ?_⟩
    cases opened : (k.hostTransfers i).fManager.readFile path (env.files path) with
    | mk success f =>
      cases success with
      | false =>
        have refused : k.cmdHostRequest env (TransferCmd.newRequest old path tId) =
            k.modifyHost i fun t => { t with fManager := f } := by
          simp [cmdHostRequest, found, chosen, opened]
        rw [refused]
        refine ⟨fun j apart => modifyHost_of_ne _ _ apart, .inl ?_⟩
        rw [modifyHost_self]
        exact idle
      | true =>
        have hosted : k.cmdHostRequest env (TransferCmd.newRequest old path tId) =
            (k.modifyHost i fun t => { t with
              fManager := f
              fileSize := f.fileSize.toUInt64.toInt64
              localId := k.clientTransferIds
              hdr := { t.hdr with
                recipients := TransferCmd.recipients (TransferCmd.newRequest old path tId) }
              pastSend := env.now
              file := path
              state := .sendReq }).nextId := by
          simp [cmdHostRequest, found, chosen, opened, nextId, modifyHost]
        rw [hosted]
        simp only [nextId_hostTransfers, modifyHost_self]
        refine ⟨fun j apart => modifyHost_of_ne _ _ apart, .inr ⟨⟨rfl, ?_, fun packet => ?_⟩, fun packet => ?_⟩⟩
        · exact (FileManager.readFile_opened opened).1
        · refine ⟨requestPacket_type _ packet, fun j => ?_⟩
          rw [requestPacket_hdrTo]
          exact (TransferCmd.recipients_new j).trans (listed j)
        · rw [sendRequest, modifyHost_self]

/-- A client whose slots are all free reads a long path past its field. -/
theorem not_hostsChosen_long (text : 0 ∉ path) (long : 2 * fileNameLen ≤ path.length) :
    ¬ TransferManager.init.hostsChosen env (TransferCmd.newRequest old path tId) path ids := by
  intro hosts
  exact TransferCmd.long_new text long hosts.1

end TransferManager

namespace MainMenu

variable {menu : MainMenu} {m : TransferManager} {old : Mem cmdRequestSize}

/-- What `transfer` does with at most six users selected. -/
theorem transfer_fits (fits : menu.selectedIds.length ≤ transferClientsMax) :
    ∃ tId : Fin transferClientsMax → ClientId, (∀ j, tId j = menu.selectedIds.getD j 0) ∧
      menu.transfer m old = match menu.filePath with
        | none => .ok (menu, m)
        | some path => if menu.selectedIds = [] then .ok (menu, m)
          else if m.cmdQueue.length < 8 then
            .ok ({ menu with userList := menu.userList.map fun c => { c with selected := false } },
              { m with cmdQueue := m.cmdQueue ++
                [.request (TransferCmd.newRequest old path.bytes tId)] })
          else .error .queueFull := by
  obtain ⟨tId, collected, entries⟩ := @collect_fits menu.userList (fun _ => 0) 0
    (by rwa [Nat.zero_add])
  refine ⟨tId, fun j => entries j, ?_⟩
  have count : 0 + (selectedOf menu.userList).length = 0 ↔ menu.selectedIds = [] := by
    rw [Nat.zero_add]
    exact List.length_eq_zero_iff
  simp only [transfer, collected, bind, Except.bind, count, TransferManager.sendCmd]
  cases menu.filePath with
  | none => rfl
  | some path =>
    dsimp only
    split
    · rfl
    · split
      · rfl
      · rfl

/-- For every state of the client in which a command may have its turn, `transfer`
delivers what was chosen exactly if at most six users are selected and, if it
queues a command, the path and its end fit into 128 bytes. -/
theorem delivers_iff (menu : MainMenu) (m : TransferManager) (old : Mem cmdRequestSize) :
    menu.delivers m old ↔ menu.selectedIds.length ≤ transferClientsMax ∧
      (menu.selectedIds ≠ [] → m.cmdQueue.length < 8 →
        ∀ path, menu.filePath = some path → path.bytes.length < 2 * fileNameLen) := by
  by_cases fits : menu.selectedIds.length ≤ transferClientsMax
  · obtain ⟨tId, listed, transfers⟩ := @transfer_fits menu m old fits
    rw [delivers, transfers, and_iff_right fits]
    cases chosen : menu.filePath with
    | none => simp
    | some path =>
      dsimp only
      by_cases none : menu.selectedIds = []
      · rw [if_pos none]
        exact iff_of_true (.inl rfl) fun some => absurd none some
      · rw [if_neg none]
        by_cases room : m.cmdQueue.length < 8
        · rw [if_pos room]
          constructor
          · rintro (same | ⟨other, req, found, queued, hosts⟩) _ _ p here
            · have longer := congrArg (fun m : TransferManager => m.cmdQueue.length) same
              simp at longer
            · cases here
              cases found
              obtain rfl : TransferCmd.newRequest old path.bytes tId = req := by
                have same := congrArg TransferManager.cmdQueue queued
                simpa using same
              by_contra long
              exact TransferManager.not_hostsChosen_long path.text (by omega)
                (hosts .init ⟨fun _ => Option.none, 0, 0, Option.none⟩)
          · intro short
            exact .inr ⟨path, _, rfl, rfl, fun k env => TransferManager.hostsChosen_short k env
              path.text (short none room path rfl) listed⟩
        · rw [if_neg room]
          exact iff_of_true trivial fun _ here => absurd here room
  · have overflows := @collect_overflows menu.userList (fun _ => 0) 0 (Nat.zero_le _)
      (by rw [Nat.zero_add]; exact Nat.lt_of_not_le fits)
    have fails : menu.transfer m old = .error .outOfBounds := by
      simp only [transfer, overflows, bind, Except.bind]
    rw [delivers, fails]
    exact iff_of_false id fun held => fits held.1

end MainMenu

/-- Seven users are selected. -/
def crowded : MainMenu where
  userList := (List.range 7).map fun i => ⟨⟨[], Int64.ofNat (101 + i)⟩, true⟩
  filePath := some ⟨ascii "/a", by decide⟩

/-- The seventh id is written behind `t_id`. -/
theorem delivers_fails : ¬ crowded.delivers .init (Mem.zero cmdRequestSize) := by
  have overflows : crowded.transfer .init (Mem.zero cmdRequestSize) = .error .outOfBounds := rfl
  rw [MainMenu.delivers, overflows]
  exact id

end Quickshare
