import Quickshare.Client.Chunking
import Quickshare.System.Views

/-! What a file is still to give, and what has gone into it, over one call. -/

namespace Quickshare

open Bytes Runs

namespace FileManager

variable {f g : FileManager} {p q : Packet} {state : FileState} {result : FRead}

/-- A file that is being read, whether or not the stream has failed. -/
structure Ready (f : FileManager) : Prop where
  working : f.state = .working
  opened : ∃ stream, f.fileFd = some stream
  inside : f.bufCnt + f.bufLen ≤ f.buf.length ∨ f.bufLen = 0

/-- A file that has been opened, and nothing was read of it. -/
structure Unread (f : FileManager) : Prop where
  empty : f.bufLen = 0
  opened : ∃ path content, f.fileFd = some ⟨path, content, [], false, 0⟩

/-- A file that is being written. -/
structure Storing (f : FileManager) : Prop where
  working : f.state = .working
  opened : ∃ stream, f.fileFd = some stream

theorem readFile_ready {path : List UInt8} {found : Option FileImage}
    (opened : f.readFile path found = (true, g)) : g.Ready ∧ g.Unread := by
  unfold readFile at opened
  split at opened
  · cases opened
  · dsimp only at opened
    split at opened
    · cases opened
    · cases opened
      exact ⟨⟨rfl, ⟨_, rfl⟩, .inr rfl⟩, rfl, _, _, rfl⟩

/-- All of a file that was just opened remains. -/
theorem Unread.remaining (unread : f.Unread) :
    ∃ path content, f.fileFd = some ⟨path, content, [], false, 0⟩ ∧ f.remaining = content := by
  obtain ⟨path, content, opened⟩ := unread.opened
  refine ⟨path, content, opened, ?_⟩
  rw [FileManager.remaining, unread.empty, List.take_zero, List.nil_append, opened]
  rfl

theorem writeFile_storing {name : List UInt8} {size : Nat} {target : WriteTarget}
    (opened : f.writeFile name size target = (true, g)) : g.Storing ∧ g.stored = [] := by
  unfold writeFile at opened
  split at opened
  · cases opened
  · dsimp only at opened
    split at opened
    · cases opened
      exact ⟨⟨rfl, _, rfl⟩, rfl⟩
    · cases opened

/-- What `send_data` gets of a block: the packet carries the front of what remains. -/
structure Sends (f : FileManager) (q : Packet) (g : FileManager) : Prop where
  ready : g.Ready
  carries : ∃ bytes, Carries q bytes
  remaining : f.remaining = q.payload ++ g.remaining

theorem sendBlock_sends {stream : Stream} (working : f.state = .working)
    (opened : f.fileFd = some stream) (inside : f.bufCnt + f.bufLen ≤ f.buf.length)
    (filled : f.bufLen ≠ 0) (memory : Packet) (from' : Stream) :
    f.Sends (f.sendBlock from' memory).1 (f.sendBlock from' memory).2 := by
  have carries := sendBlock_carries f from' memory inside filled
  refine ⟨⟨working, ⟨stream, opened⟩, .inl ?_⟩, ⟨_, carries⟩, ?_⟩
  · simp only [sendBlock]
    omega
  · rw [Packet.payload, carries.data, remaining, sendBlock_left f from' memory, List.append_assoc]
    rfl

theorem fread_split (stream : Stream) (result : FRead) :
    (fread stream result).1 ++ (fread stream result).2.unread = stream.unread := by
  have front (k : Nat) : stream.unread.take k ++ stream.unread.drop (stream.unread.take k).length =
      stream.unread := by
    rw [List.length_take]
    rcases Nat.le_total k stream.unread.length with short | long
    · rw [Nat.min_eq_left short, List.take_append_drop]
    · rw [Nat.min_eq_right long, List.drop_length, List.append_nil, List.take_of_length_le long]
  cases result with
  | none => exact front fileBufferSize
  | some stop =>
    simp only [fread, List.take_take]
    exact front _

/-- Nothing read without a failure is the end of the file. -/
theorem fread_end {stream : Stream} (empty : (fread stream result).1 = [])
    (sound : (fread stream result).2.failed ≠ true) : stream.unread = [] := by
  cases result with
  | some stop => simp [fread] at sound
  | none =>
    have none : stream.unread.take fileBufferSize = [] := empty
    exact (List.take_eq_nil_iff.mp none).resolve_left (by decide)

/-- `read_work` on a file at hand sends from it, or has come to its end, or fails. -/
theorem readWork_ready (ready : f.Ready) (done : f.readWork p result = .ok (state, q, g)) :
    (state = .working → f.Sends q g) ∧ (state = .complete → f.remaining = []) := by
  obtain ⟨stream, opened⟩ := ready.opened
  unfold readWork at done
  rw [ready.working] at done
  obtain ⟨⟨going, packet, next⟩, read, done⟩ := bind_ok done
  simp only [readFromFile, opened] at read
  by_cases loads : f.bufLen = 0
  · rw [if_pos loads] at read
    have unread : f.remaining = stream.unread := by
      rw [remaining, loads, List.take_zero, List.nil_append, opened]
      rfl
    have split := fread_split stream result
    have ended : (fread stream result).1 = [] → (fread stream result).2.failed ≠ true →
        stream.unread = [] := fread_end
    generalize fread stream result = block at read split ended
    obtain ⟨bytes, later⟩ := block
    dsimp only at read split ended
    by_cases empty : bytes = []
    · by_cases failed : later.failed = true
      · rw [if_pos ⟨empty, failed⟩] at read
        cases read
        cases done
        exact ⟨nofun, nofun⟩
      · rw [if_neg (fun both => failed both.2), if_pos empty] at read
        cases read
        cases done
        exact ⟨nofun, fun _ => unread.trans (ended empty failed)⟩
    · rw [if_neg (fun both => empty both.1), if_neg empty] at read
      let held : FileManager := { f with
        fileFd := .some later
        buf := bytes ++ f.buf.drop bytes.length
        bufLen := bytes.length
        bufCnt := 0 }
      have sends : held.Sends (held.sendBlock later p).1 (held.sendBlock later p).2 :=
        sendBlock_sends (f := held) ready.working rfl (by simp [held]) (by simpa [held] using empty) p later
      have whole : held.remaining = f.remaining := by
        rw [unread, ← split]
        simp [held, remaining]
      cases read
      cases done
      refine ⟨fun _ => ⟨sends.ready, sends.carries, whole ▸ sends.remaining⟩, fun complete => ?_⟩
      have working : f.state = .complete := complete
      rw [ready.working] at working
      cases working
  · rw [if_neg loads] at read
    cases read
    cases done
    refine ⟨fun _ => ?_, fun complete => ?_⟩
    · exact sendBlock_sends ready.working opened (ready.inside.resolve_right loads) loads p stream
    · have working : f.state = .complete := complete
      rw [ready.working] at working
      cases working

/-- `write_work` on a file at hand puts the announced bytes behind what is there. -/
theorem writeWork_storing {bytes : Option Nat} (storing : f.Storing)
    (done : f.writeWork p bytes = .ok g) : g.Storing ∧ g.stored = f.stored ++ p.payload := by
  obtain ⟨stream, opened⟩ := storing.opened
  unfold writeWork at done
  simp only [storing.working, opened] at done
  split at done
  · cases done
  · split at done
    · cases done
    · split at done
      · cases done
      · cases done
        refine ⟨⟨rfl, _, rfl⟩, ?_⟩
        simp only [stored, opened, Option.map_some, Option.getD_some]
        rfl

end FileManager

end Quickshare
