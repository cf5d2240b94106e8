import Quickshare.Client.Requests
import Quickshare.Lib.Paths

/-! Where the file of a request is opened. `write_file` appends the name it is
given to the Downloads directory as it stands, separators and double dots
included. -/

namespace Quickshare

open Bytes Paths

/-- Path names of Linux. -/
def pathSyntax : Paths.Syntax UInt8 where
  separator := 47
  dot := 46
  apart := by decide

/-- The user's Downloads directory. -/
def downloads (user : List UInt8) : List UInt8 := ascii "/home/" ++ user ++ ascii "/Downloads"

theorem downloadPath_eq (user name : List UInt8) : FileManager.downloadPath user name =
    downloads user ++ pathSyntax.separator :: name := by
  have slash : ascii "/Downloads/" = ascii "/Downloads" ++ [pathSyntax.separator] := by decide
  simp only [FileManager.downloadPath, downloads, slash, List.append_assoc, List.cons_append,
    List.nil_append]

theorem cString_append {bytes rest : List UInt8} (ended : 0 ∈ bytes) :
    cString (bytes ++ rest) = cString bytes := by
  induction bytes with
  | nil => cases ended
  | cons first bytes ih =>
    by_cases last : first = 0
    · simp [cString, last]
    · have later : 0 ∈ bytes := by
        simpa [Ne.symm last] using ended
      simpa [cString, last] using ih later

namespace TransferManager

variable {m next : TransferManager} {env : PacketEnv} {p : Packet} {i : Fin simTransfersMax}

/-- A name that ends within its field is read from the field. -/
theorem requestFileName_of_ended {p : Packet} (ended : 0 ∈ p.fileName) :
    requestFileName p = some (cString p.fileName) := by
  have field : p.read 80 (packetMaxSize - 80) =
      p.fileName ++ p.read (80 + fileNameLen) (packetMaxSize - 80 - fileNameLen) := by
    have sizes : packetMaxSize - 80 = fileNameLen + (packetMaxSize - 80 - fileNameLen) := by decide
    exact (congrArg (p.read 80) sizes).trans (p.read_add 80 fileNameLen _)
  have stops : cString (p.read 80 (packetMaxSize - 80)) = cString p.fileName := by
    rw [field]
    exact cString_append ended
  rw [requestFileName, if_pos (by rw [field]; exact List.mem_append_left _ ended), stops]

/-- Every path handling the packet opens for writing names an entry directly
inside the user's Downloads directory. -/
def confines (m : TransferManager) (env : PacketEnv) (p : Packet) : Prop :=
  ∀ next, m.handle env p = .ok next → ∀ i path, .open .writeFile path ∈ fileEffects m next i →
    ∃ user, env.target.user = some user ∧ DirectlyInside pathSyntax (downloads user) path

/-- Handling a request that opens a file opens one, below Downloads. -/
theorem fileEffects_opens (type : p.type? = some .transferRequest) (opens : m.opensFile env p) :
    ∃ next i name user, m.handle env p = .ok next ∧ requestFileName p = some name ∧
      env.target.user = some user ∧
      fileEffects m next i = [.open .writeFile (FileManager.downloadPath user name)] ∧
      ∀ j, j ≠ i → fileEffects m next j = [] := by
  obtain ⟨i, name, user, f, idle, ended, named, acts, made⟩ := createRecvRequest_opens opens
  refine ⟨_, i, name, user, (handle_request_ok type).mpr made, ended, named, ?_, ?_⟩
  · simp [fileEffects, modifyRecv_self, acts]
  · intro j other
    exact fileEffects_same (by rw [modifyRecv_of_ne _ _ other])

/-- A request is confined exactly if it opens no file, or every component of its
name but the last is empty or a dot and the last names an entry. -/
theorem confines_iff (m : TransferManager) (env : PacketEnv) (p : Packet)
    (type : p.type? = some .transferRequest) (ended : 0 ∈ p.fileName) : m.confines env p ↔
      (m.opensFile env p → PlainName pathSyntax (cString p.fileName)) := by
  have read := requestFileName_of_ended ended
  constructor
  · intro confined opens
    obtain ⟨next, i, name, user, handled, same, named, effects, -⟩ := fileEffects_opens type opens
    cases read.symm.trans same
    have opened : .open .writeFile (FileManager.downloadPath user (cString p.fileName)) ∈
        fileEffects m next i := by
      rw [effects]
      exact List.mem_singleton_self _
    obtain ⟨who, known, inside⟩ := confined next handled i _ opened
    cases named.symm.trans known
    rw [downloadPath_eq] at inside
    exact directlyInside_iff.mp inside
  · intro plain next handled i path touched
    by_cases opens : m.opensFile env p
    · obtain ⟨after, j, name, user, done, same, named, effects, others⟩ :=
        fileEffects_opens type opens
      cases read.symm.trans same
      cases handled.symm.trans done
      by_cases here : i = j
      · subst here
        rw [effects, List.mem_singleton] at touched
        cases touched
        refine ⟨user, named, ?_⟩
        rw [downloadPath_eq]
        exact directlyInside_iff.mpr (plain opens)
      · rw [others i here] at touched
        cases touched
    · exact absurd ((handle_request_ok type).mp handled) (createRecvRequest_not_opens opens next)

end TransferManager

/-- A request for the file `../a`. -/
def outsideOffer : Packet := fileOffer.write 80 (ascii "../a")

/-- The plain name is confined, the one with a double dot is not. -/
theorem confines_iff_offers : TransferManager.init.confines .opening fileOffer ∧
    ¬ TransferManager.init.confines .opening outsideOffer := by
  have inside := TransferManager.init.confines_iff .opening fileOffer (by decide +kernel)
    (by decide +kernel)
  have outside := TransferManager.init.confines_iff .opening outsideOffer (by decide +kernel)
    (by decide +kernel)
  constructor
  · apply inside.mpr
    intro opens
    decide +kernel
  · intro confined
    have opens : TransferManager.init.opensFile .opening outsideOffer := by
      refine ⟨⟨0, rfl⟩, ?_, by decide, rfl⟩
      decide +kernel
    have plain := outside.mp confined opens
    revert plain
    decide +kernel

/-- A name with a double dot leads out of Downloads. -/
theorem request_leaves_downloads : ¬ ∀ events m,
    Runs.run TransferManager.step .init events = .ok m → ∀ env p,
      p.type? = some .transferRequest → 0 ∈ p.fileName → m.confines env p := by
  intro all
  have type : outsideOffer.type? = some .transferRequest := by decide +kernel
  have ended : 0 ∈ outsideOffer.fileName := by decide +kernel
  have opens : TransferManager.init.opensFile .opening outsideOffer := by
    refine ⟨⟨0, rfl⟩, ?_, by decide, rfl⟩
    decide +kernel
  have plain := (TransferManager.init.confines_iff .opening outsideOffer type ended).mp
    (all [] .init rfl .opening outsideOffer type ended) opens
  revert plain
  decide +kernel

end Quickshare
