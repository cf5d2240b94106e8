import Quickshare.Client.Network
import Quickshare.Lib.Runs

/-! The packets a client makes: each has room for what its header announces. -/

namespace Quickshare

open Runs Bytes

/-- The header of a transfer lies behind that of the packet. -/
theorem Packet.read_setHdr (p : Packet) (hdr : TransferHdr) {start w : Nat}
    (apart : start + w ≤ 8 ∨ 72 ≤ start) : (p.setHdr hdr).read start w = p.read start w := by
  have recipients : transferClientsMax = 6 := rfl
  rw [Packet.setHdr, Mem.read_words_apart _ _ (by omega), Mem.storeInt64,
    Mem.read_store_apart _ (by omega), Mem.storeInt64, Mem.read_store_apart _ (by omega)]

theorem Packet.size_setHdr (p : Packet) (hdr : TransferHdr) :
    Packet.size (p.setHdr hdr) = p.size :=
  congrArg ofLE (p.read_setHdr hdr (.inl (by decide)))

theorem cancelPacket_size (t : ActiveTransfer) (p : Packet) :
    Packet.size (TransferManager.cancelPacket t p) = transferStateSize := by
  rw [TransferManager.cancelPacket, Packet.size_setHdr, Packet.size_packetHdr _ _ (by decide)]

theorem requestPacket_size (t : ActiveTransfer) (p : Packet) :
    Packet.size (TransferManager.requestPacket t p) = requestSize := by
  rw [TransferManager.requestPacket, Packet.size_setHdr, Packet.size_store _ _ _ (by decide)]
  split
  · rw [Packet.size_store _ _ _ (by decide), Packet.size_write _ _ (by decide),
      Packet.size_storeInt64 _ _ (by decide), Packet.size_packetHdr _ _ (by decide)]
  · rw [Packet.size_write _ _ (by decide), Packet.size_storeInt64 _ _ (by decide),
      Packet.size_packetHdr _ _ (by decide)]

theorem replyPacket_size (t : ActiveTransfer) (p : Packet) :
    Packet.size (TransferManager.replyPacket t p) = transferReplySize := by
  rw [TransferManager.replyPacket, Packet.size_storeInt64 _ _ (by decide),
    Packet.size_store _ _ _ (by decide), Packet.size_packetHdr _ _ (by decide)]

theorem completePacket_size (t : ActiveTransfer) (p : Packet) :
    Packet.size (TransferManager.completePacket t p) = transferStateSize := by
  rw [TransferManager.completePacket, Packet.size_storeInt64 _ _ (by decide),
    Packet.size_packetHdr _ _ (by decide)]

theorem toPacket_size (session : Session) (p : Packet) :
    Packet.size (session.toPacket p) = introSize := by
  rw [Session.toPacket, Packet.size_store _ _ _ (by decide), Packet.size_write _ _ (by decide),
    Packet.size_write _ _ (by decide), Packet.size_packetHdr _ _ (by decide)]

theorem sendBlock_size (f : FileManager) (stream : Stream) (p : Packet) :
    Packet.size (f.sendBlock stream p).1 = transferDataSize := by
  rw [FileManager.sendBlock, Packet.size_write _ _ (by decide), Packet.size_store _ _ _ (by decide),
    Packet.size_packetHdr _ _ (by decide)]

/-- While `read_work` goes on it sends from a block. -/
theorem readWork_working {f g : FileManager} {p q : Packet} {result : FRead}
    (done : f.readWork p result = .ok (.working, q, g)) :
    ∃ (block : FileManager) (stream : Stream), (q, g) = block.sendBlock stream p := by
  unfold FileManager.readWork at done
  split at done
  · obtain ⟨⟨going, packet, next⟩, read, done⟩ := bind_ok done
    simp only [pure, Except.pure, Except.ok.injEq, Prod.mk.injEq] at done
    obtain ⟨state, rfl, rfl⟩ := done
    cases going with
    | false => cases state
    | true =>
      simp only [if_true] at state ⊢
      unfold FileManager.readFromFile at read
      split at read
      · cases read
      · dsimp only at read
        split at read
        · split at read
          · cases read
          · split at read
            · cases read
              cases state
            · exact ⟨_, _, (Prod.mk.inj (Except.ok.inj read)).2.symm⟩
        · exact ⟨_, _, (Prod.mk.inj (Except.ok.inj read)).2.symm⟩
  · rename_i idle
    simp only [Except.ok.injEq, Prod.mk.injEq] at done
    exact absurd done.1 idle

theorem readWork_size {f g : FileManager} {p q : Packet} {result : FRead}
    (done : f.readWork p result = .ok (.working, q, g)) : Packet.size q = transferDataSize := by
  obtain ⟨block, stream, same⟩ := readWork_working done
  have size := sendBlock_size block stream p
  rwa [← same] at size

namespace TransferManager

variable {m next : TransferManager} {env : WorkEnv} {i : Fin simTransfersMax} {p packet : Packet}
variable {work : WorkState}

theorem sendData_size (done : m.sendData env i p = .ok (.hasWork, packet, next)) :
    Packet.size packet ≤ transferDataSize := by
  unfold sendData at done
  split at done
  · cases done
  · obtain ⟨⟨state, q, f⟩, read, done⟩ := bind_ok done
    simp only [pure, Except.pure, Except.ok.injEq, Prod.mk.injEq, true_and] at done
    obtain ⟨rfl, -⟩ := done
    cases state with
    | working =>
      have size := readWork_size read
      simp only [sendRead, Packet.size_storeInt64 _ _ (show hdrSize ≤ 8 by decide), size, le_refl]
    | complete =>
      simp only [sendRead, completePacket_size]
      decide
    | error =>
      simp only [sendRead, sendCancelHost, cancelPacket_size]
      decide
    | empty =>
      simp only [sendRead, sendCancelHost, cancelPacket_size]
      decide

theorem hostTransferWork_size (done : m.hostTransferWork env p = .ok (.hasWork, packet, next)) :
    Packet.size packet ≤ transferDataSize := by
  unfold hostTransferWork at done
  split at done
  · cases done
  · split at done
    · exact sendData_size done
    · cases done
      simp only [cancelPacket_size]
      decide
    · cases done
      simp only [requestPacket_size]
      decide

theorem recvTransferWork_size (done : m.recvTransferWork p = (.hasWork, packet, next)) :
    Packet.size packet ≤ transferDataSize := by
  unfold recvTransferWork at done
  split at done
  · cases done
  · split at done
    · cases done
      simp only [cancelPacket_size]
      decide
    · cases done
      simp only [replyPacket_size]
      decide

/-- What `do_work` produces has room for what its header announces. -/
theorem doWork_size (done : m.doWork env p = .ok (.hasWork, packet, next)) :
    Packet.size packet ≤ transferDataSize := by
  obtain ⟨⟨host, q, k⟩, worked, done⟩ := bind_ok done
  dsimp only at done
  split at done
  · exact recvTransferWork_size (Except.ok.inj done)
  · cases done
    exact hostTransferWork_size worked

end TransferManager

end Quickshare
