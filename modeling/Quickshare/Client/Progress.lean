import Quickshare.Client.Requests
import Quickshare.Client.Sending

/-! The progress of a received file. `write_work` divides a product of 64 bits by
the size that the request announced. -/

namespace Quickshare

open Runs Bytes

/-- A quotient of scaled sums of 64 bits goes on rising to 100 exactly if the new
product is small enough and has not wrapped below an earlier one that counts. -/
theorem scaled_rises_iff {size sum n : Nat} (sized : size ≠ 0) (chunk : n ≤ 1416)
    (before : sum * 100 % 2 ^ 64 / size ≤ 100) :
    (sum * 100 % 2 ^ 64 / size ≤ (sum + n) * 100 % 2 ^ 64 / size % 2 ^ 32 ∧
        (sum + n) * 100 % 2 ^ 64 / size % 2 ^ 32 ≤ 100) ↔
      (sum + n) * 100 % 2 ^ 64 < 101 * size ∧
        (sum * 100 % 2 ^ 64 ≤ (sum + n) * 100 % 2 ^ 64 ∨ sum * 100 % 2 ^ 64 < size) := by
  have positive : 0 < size := Nat.pos_of_ne_zero sized
  have step : (sum + n) * 100 = sum * 100 + n * 100 := Nat.add_mul ..
  have most : n * 100 ≤ 141600 := Nat.mul_le_mul_right 100 chunk
  rw [step]
  generalize sum * 100 = product at before ⊢
  generalize n * 100 = more at most ⊢
  obtain ⟨old, first⟩ : ∃ old, product % 2 ^ 64 = old := ⟨_, rfl⟩
  obtain ⟨new, second⟩ : ∃ new, (product + more) % 2 ^ 64 = new := ⟨_, rfl⟩
  have grows : new ≤ old + 141600 := by omega
  have wraps : old ≤ new ∨ (new < 141600 ∧ 2 ^ 64 ≤ old + 141600) := by omega
  rw [first] at before ⊢
  rw [second]
  have small : old < 101 * size := (Nat.div_lt_iff_lt_mul positive).mp (by omega)
  have fits : new / size % 2 ^ 32 = new / size := by
    apply Nat.mod_eq_of_lt
    rw [Nat.div_lt_iff_lt_mul positive]
    omega
  have hundred : new / size ≤ 100 ↔ new < 101 * size := by
    rw [← Nat.lt_succ_iff, Nat.div_lt_iff_lt_mul positive]
  rw [fits, and_comm, hundred]
  refine and_congr_right fun less => ⟨fun rises => ?_, fun kept => ?_⟩
  · by_contra falls
    have counts : 1 ≤ old / size := (Nat.le_div_iff_mul_le positive).mpr (by omega)
    have below : old / size * size ≤ new := (Nat.le_div_iff_mul_le positive).mp rises
    have above : old < (old / size + 1) * size := (Nat.div_lt_iff_lt_mul positive).mp (by omega)
    have once : size ≤ old / size * size := Nat.le_mul_of_pos_left size counts
    rw [Nat.succ_mul] at above
    omega
  · rcases kept with grown | nothing
    · exact Nat.div_le_div_right grown
    · rw [Nat.div_eq_of_lt nothing]
      exact Nat.zero_le _

namespace FileManager

variable {f g : FileManager} {data : Packet} {bytes : Option Nat}

/-- `write_work` does not divide by zero, and its progress rises to 100 at most. -/
def rises (f : FileManager) (data : Packet) (bytes : Option Nat) : Bool :=
  match f.writeWork data bytes with
  | .ok g => f.progress ≤ g.progress ∧ g.progress ≤ 100
  | .error fault => fault ≠ .division

/-- `write_work` gets to the progress: the file is open, the packet holds its
bytes, and `fwrite` takes them. -/
def computes (f : FileManager) (data : Packet) (bytes : Option Nat) : Bool :=
  f.state = .working ∧ f.fileFd.isSome ∧ data.bSize ≤ dataBytesSize ∧
    ¬ bytes.any (· < data.bSize)

/-- The announced size is not 0, and 100 times the bytes received are less than 101
times this size, as numbers of 64 bits; if the packet makes them wrap, they were
less than the size before. -/
def counts (f : FileManager) (data : Packet) : Bool :=
  f.fileSize ≠ 0 ∧ (f.bufLen + data.bSize) * 100 % 2 ^ 64 < 101 * f.fileSize ∧
    (f.bufLen * 100 % 2 ^ 64 ≤ (f.bufLen + data.bSize) * 100 % 2 ^ 64 ∨
      f.bufLen * 100 % 2 ^ 64 < f.fileSize)

/-- The progress shown is that of the bytes received. -/
structure Shown (f : FileManager) : Prop where
  most : f.progress ≤ 100
  same : f.progress = f.bufLen * 100 % 2 ^ 64 / f.fileSize

theorem writeWork_computes (computes : f.computes data bytes = true) : f.writeWork data bytes =
    if f.fileSize = 0 then .error .division
    else .ok { f with
      fileFd := f.fileFd.map fun stream =>
        { stream with written := stream.written ++ data.dataBytes data.bSize }
      bufLen := (f.bufLen + data.bSize) % 2 ^ 64
      progress := (f.bufLen + data.bSize) % 2 ^ 64 * 100 % 2 ^ 64 / f.fileSize % 2 ^ 32
      acts := f.acts ++ [.write (data.dataBytes data.bSize)] } := by
  simp only [FileManager.computes, decide_eq_true_eq, Option.isSome_iff_exists] at computes
  obtain ⟨working, ⟨stream, held⟩, inside, complete⟩ := computes
  have limits : dataBytesSize = 1416 ∧ packetMaxSize = 1440 := ⟨rfl, rfl⟩
  have fits : ¬ packetMaxSize < 24 + data.bSize := by omega
  simp only [writeWork, working, held, if_neg fits, if_neg complete, Option.map_some]

/-- Otherwise it stops before the progress, or does nothing. -/
theorem writeWork_idle (stops : f.computes data bytes = false) :
    f.writeWork data bytes = .ok f ∨ ∃ fault, f.writeWork data bytes = .error fault ∧
      fault ≠ .division := by
  unfold writeWork
  split
  · rename_i working
    split
    · exact .inr ⟨_, rfl, by decide⟩
    · rename_i stream held
      split
      · exact .inr ⟨_, rfl, by decide⟩
      · rename_i inside
        split
        · exact .inr ⟨_, rfl, by decide⟩
        · rename_i complete
          have limits : dataBytesSize = 1416 ∧ packetMaxSize = 1440 := ⟨rfl, rfl⟩
          have fits : data.bSize ≤ dataBytesSize := by omega
          simp [FileManager.computes, working, held, fits, complete] at stops
  · exact .inl rfl

theorem product_wraps (sum : Nat) : sum % 2 ^ 64 * 100 % 2 ^ 64 = sum * 100 % 2 ^ 64 := by omega

/-- A data packet lets the progress rise exactly if its bytes count. -/
theorem rises_iff (shown : f.Shown) (data : Packet) (bytes : Option Nat) :
    f.rises data bytes = true ↔ (f.computes data bytes = true → f.counts data = true) := by
  cases computes : f.computes data bytes with
  | false =>
    have rises : f.rises data bytes = true := by
      unfold rises
      rcases writeWork_idle computes with idle | ⟨fault, failed, other⟩
      · simp [idle, shown.most]
      · simp [failed, other]
    simp [rises]
  | true =>
    have chunk : data.bSize ≤ 1416 := by
      simp only [FileManager.computes, decide_eq_true_eq] at computes
      exact computes.2.2.1
    rw [forall_prop_of_true rfl, rises, writeWork_computes computes, counts]
    by_cases sized : f.fileSize = 0
    · simp [sized]
    · have before : f.bufLen * 100 % 2 ^ 64 / f.fileSize ≤ 100 := shown.same ▸ shown.most
      rw [if_neg sized]
      dsimp only
      rw [product_wraps, shown.same, decide_eq_true_eq, decide_eq_true_eq,
        scaled_rises_iff sized chunk before, and_iff_right sized]

theorem Shown.writeWork (shown : f.Shown) (counts : f.computes data bytes = true → f.counts data = true)
    (wrote : f.writeWork data bytes = .ok g) : g.Shown := by
  have rises := (rises_iff shown data bytes).mpr counts
  rw [FileManager.rises, wrote] at rises
  simp only [decide_eq_true_eq] at rises
  refine ⟨rises.2, ?_⟩
  cases computes : f.computes data bytes with
  | false =>
    rcases writeWork_idle computes with idle | ⟨fault, failed, -⟩
    · cases idle.symm.trans wrote
      exact shown.same
    · cases failed.symm.trans wrote
  | true =>
    have counted := counts computes
    simp only [FileManager.counts, decide_eq_true_eq] at counted
    obtain ⟨sized, less, -⟩ := counted
    rw [writeWork_computes computes, if_neg sized] at wrote
    cases wrote
    dsimp only
    rw [product_wraps]
    apply Nat.mod_eq_of_lt
    rw [Nat.div_lt_iff_lt_mul (Nat.pos_of_ne_zero sized)]
    omega

theorem writeFile_shown {name : List UInt8} {size : Nat} {target : WriteTarget}
    (opened : f.writeFile name size target = (true, g)) : g.Shown := by
  unfold writeFile at opened
  split at opened
  · cases opened
  · dsimp only at opened
    split at opened
    · cases opened
      exact ⟨Nat.zero_le _, by simp⟩
    · cases opened

end FileManager

namespace TransferManager

variable {m next : TransferManager} {e : ManagerEvent}

/-- What a data packet is written to, if it is the packet of a transfer. -/
def receives (m : TransferManager) (p : Packet) : Option FileManager :=
  if p.type? = some .transferData then
    (m.recvTransfers.search (completes p.tId)).map fun i => (m.recvTransfers i).fManager
  else none

/-- The progress of the file a packet is written to rises, to 100 at most. -/
def progressRises (m : TransferManager) : ManagerEvent → Prop
  | .packet env p => (m.receives p).all (·.rises p env.fwrite) = true
  | _ => True

/-- The bytes of a packet count for the file they are written to. -/
def progressFits (m : TransferManager) : ManagerEvent → Prop
  | .packet env p => ∀ f ∈ m.receives p, f.computes p env.fwrite = true → f.counts p = true
  | _ => True

instance (m : TransferManager) : (e : ManagerEvent) → Decidable (m.progressRises e)
  | .packet _ _ => inferInstanceAs (Decidable (_ = true))
  | .cmd _ | .work _ _ => isTrue trivial

/-- Every receive slot shows the progress of what it has received. -/
def AllShown (m : TransferManager) : Prop := ∀ i, (m.recvTransfers i).fManager.Shown

theorem AllShown.receives {p : Packet} (shown : m.AllShown) : ∀ f ∈ m.receives p, f.Shown := by
  intro f found
  unfold TransferManager.receives at found
  split at found
  · obtain ⟨i, -, rfl⟩ := Option.map_eq_some_iff.mp found
    exact shown i
  · cases found

theorem progressRises_iff (shown : m.AllShown) (e : ManagerEvent) :
    m.progressRises e ↔ m.progressFits e := by
  cases e with
  | packet env p =>
    simp only [progressRises, progressFits, Option.all_eq_true]
    refine forall_congr' fun f => forall_congr' fun found => ?_
    exact FileManager.rises_iff (shown.receives f found) p env.fwrite
  | cmd cmd => exact Iff.rfl
  | work env p => exact Iff.rfl

theorem AllShown.same (shown : m.AllShown)
    (same : ∀ i, (next.recvTransfers i).fManager = (m.recvTransfers i).fManager) : next.AllShown := by
  intro i
  rw [same i]
  exact shown i

/-- One slot gets another file, the others keep theirs. -/
theorem AllShown.modify (shown : m.AllShown) (i : Fin simTransfersMax)
    (f : ActiveTransfer → ActiveTransfer) (here : (f (m.recvTransfers i)).fManager.Shown) :
    (m.modifyRecv i f).AllShown := by
  intro j
  by_cases same : j = i
  · subst same
    rw [modifyRecv_self]
    exact here
  · rw [modifyRecv_of_ne _ _ same]
    exact shown j

theorem AllShown.recvData {env : PacketEnv} {p : Packet} (shown : m.AllShown)
    (type : p.type? = some .transferData) (fits : m.progressFits (.packet env p))
    (taken : m.recvData p env.fwrite = .ok next) : next.AllShown := by
  unfold TransferManager.recvData at taken
  cases found : m.recvTransfers.search fun t => t.state = .active ∧ p.tId = t.hdr.tId with
  | none =>
    rw [found] at taken
    cases taken
    exact shown
  | some i =>
    rw [found] at taken
    obtain ⟨f, wrote, done⟩ := bind_ok taken
    cases done
    have receives : m.receives p = some (m.recvTransfers i).fManager := by
      rw [TransferManager.receives, if_pos type]
      exact Option.map_eq_some_iff.mpr ⟨i, found, rfl⟩
    exact shown.modify i _ ((shown i).writeWork (fits _ receives) wrote)

theorem AllShown.step (shown : m.AllShown) (fits : m.progressFits e)
    (taken : m.step e = .ok next) : next.AllShown := by
  cases e with
  | cmd cmd =>
    cases taken
    apply shown.same
    intro i
    rw [(sendCmd_slots m cmd).1]
  | work env p =>
    obtain ⟨work, packet, done⟩ := step_work taken
    exact shown.same (doWork_fManager done)
  | packet env p =>
    cases handle_handled taken with
    | requested i type idle named opened =>
      exact shown.modify i _ (FileManager.writeFile_shown opened)
    | dropped i type found => exact shown.modify i _ (shown i)
    | completed i type found => exact shown.modify i _ ⟨(shown i).most, (shown i).same⟩
    | written i type =>
      simp only [TransferManager.step, handle, type] at taken
      exact shown.recvData type fits taken
    | _ => exact shown

/-- In every run of the client the progress of each received file rises, to 100 at
most and without a division by zero, exactly if the bytes of every packet count. -/
theorem progress_rises_iff (events : List ManagerEvent) :
    Guarded step progressRises .init events ↔ Guarded step progressFits .init events := by
  have start : AllShown .init := by
    intro i
    exact ⟨Nat.zero_le _, by simp [init, ActiveTransfer.init, FileManager.init]⟩
  apply guarded_iff_guarded start
  · intro m e next shown fits taken
    exact shown.step fits taken
  · intro m e shown
    exact progressRises_iff shown e

end TransferManager

/-- A data packet of one byte for transfer 1. -/
def oneByteData : Packet :=
  ((Packet.packetHdr .transferData transferDataSize (Mem.zero packetMaxSize)).storeInt64 8 1).store
    16 8 1

/-- A request may announce an empty file and one byte follow. -/
theorem progress_rises_fails : ¬ ∀ events : List ManagerEvent,
    Guarded TransferManager.step TransferManager.progressRises .init events := by
  intro all
  have risen := all [.packet .opening fileOffer, .cmd (.reply 1 true),
    .work .none (Mem.zero packetMaxSize), .packet .opening oneByteData]
  revert risen
  decide +kernel

end Quickshare
