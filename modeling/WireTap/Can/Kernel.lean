import WireTap.ByteString
import WireTap.Can.Dlc

/-! # Kernel frame layouts

SocketCAN hands a raw socket a `struct can_frame` (16 bytes: little-endian `u32` id, `u8` DLC,
3 pad, 8 data) or a `struct canfd_frame` (72 bytes: `u32` id, `u8` length, `u8` flags, 2
reserved, 64 data).  `CanTcpServer.run` tells them apart by size and unpacks the id, the DLC and
the payload (`decodeFrame`); `CanTcpServer._tx_can` packs the two layouts with `struct.pack`
(`packClassic`, `packFd`).

`decodeFrame_packClassic` and `decodeFrame_packFd` say what the decoder reads back from a frame
the server packs: the same id, the DLC the server computed, and the payload it was given, cut to
the layout's width. -/

namespace WireTap.Can.Kernel

open WireTap.ByteString WireTap.Can.Dlc

/-- What `run` unpacks from a frame: `can_id`, `dlc`, `data` and `is_fd_frame`.  The FD flags
byte is read into `fd_flags`, which nothing uses. -/
structure Decoded where
  canId : Nat
  dlc : Nat
  data : Bytes
  isFd : Bool
  deriving DecidableEq, Repr

/-- The frame decode of `CanTcpServer.run`.  `none` is the `struct.error` that `unpack_from`
raises on a frame shorter than its format; the kernel never returns one. -/
def decodeFrame (frame : Bytes) : Option Decoded :=
  if frame.length = 72 then
    let dataLen := (frame.getD 4 0).toNat
    some { canId := fromBytesLE (frame.take 4), dlc := lenToDlc dataLen,
           data := slice frame 8 (8 + dataLen), isFd := true }
  else if frame.length < 5 then none
  else
    let dlc := (frame.getD 4 0).toNat
    let dataLen := min dlc 8
    some { canId := fromBytesLE (frame.take 4), dlc := dlc,
           data := slice frame 8 (8 + dataLen), isFd := false }

/-- `struct.pack("<IB3x8s", can_id, dlc, data[:8].ljust(8, b"\x00"))`. -/
def packClassic (canId dlc : Nat) (data : Bytes) : Bytes :=
  toBytesLE 4 canId ++ [UInt8.ofNat dlc, 0, 0, 0] ++ packField (ljust (data.take 8) 8) 8

/-- `struct.pack("<IBBBB64s", can_id, data_len, 0, 0, 0, data.ljust(64, b"\x00"))`. -/
def packFd (canId dataLen : Nat) (data : Bytes) : Bytes :=
  toBytesLE 4 canId ++ [UInt8.ofNat dataLen, 0, 0, 0] ++ packField (ljust data 64) 64

@[simp] theorem length_packClassic (canId dlc : Nat) (data : Bytes) :
    (packClassic canId dlc data).length = 16 := by
  simp [packClassic]

@[simp] theorem length_packFd (canId dataLen : Nat) (data : Bytes) :
    (packFd canId dataLen data).length = 72 := by
  simp [packFd]

theorem decodeFrame_isSome {frame : Bytes} (h : frame.length = 16 ∨ frame.length = 72) :
    (decodeFrame frame).isSome := by
  unfold decodeFrame
  split
  · rfl
  · rw [if_neg (by omega)]; rfl

theorem header_take (canId : Nat) (b0 : UInt8) (rest : Bytes) :
    (toBytesLE 4 canId ++ [b0, 0, 0, 0] ++ rest).take 4 = toBytesLE 4 canId ∧
      (toBytesLE 4 canId ++ [b0, 0, 0, 0] ++ rest).getD 4 0 = b0 := by
  obtain ⟨a, b, c, d, h⟩ : ∃ a b c d, toBytesLE 4 canId = [a, b, c, d] :=
    ⟨_, _, _, _, rfl⟩
  simp [h]

/-- `_tx_can`'s classic frame decodes to its id, `dlc = min(len, 8)` and the first `dlc` bytes. -/
theorem decodeFrame_packClassic {canId : Nat} (hid : canId < 2 ^ 32) (data : Bytes) :
    decodeFrame (packClassic canId (min data.length 8) data) =
      some { canId := canId, dlc := min data.length 8,
             data := data.take (min data.length 8), isFd := false } := by
  obtain ⟨h4, hb⟩ := header_take canId (UInt8.ofNat (min data.length 8))
    (packField (ljust (data.take 8) 8) 8)
  have hdlc : (UInt8.ofNat (min data.length 8)).toNat = min data.length 8 := by
    simp only [UInt8.toNat, UInt8.ofNat, BitVec.toNat_ofNat]; omega
  unfold decodeFrame
  rw [length_packClassic, if_neg (by omega), if_neg (by omega)]
  dsimp only [packClassic]
  rw [h4, hb, hdlc, slice_header (by simp), fromBytesLE_toBytesLE_of_lt (by omega),
    take_packField (by omega) (by simp only [length_ljust, List.length_take]; omega),
    take_ljust (by simp only [List.length_take]; omega), List.take_take]
  simp

/-- `_tx_can`'s FD frame decodes to its id, the code of `data_len = min(len, 64)` and the first
`data_len` bytes. -/
theorem decodeFrame_packFd {canId : Nat} (hid : canId < 2 ^ 32) (data : Bytes) :
    decodeFrame (packFd canId (min data.length 64) data) =
      some { canId := canId, dlc := lenToDlc (min data.length 64),
             data := data.take (min data.length 64), isFd := true } := by
  obtain ⟨h4, hb⟩ := header_take canId (UInt8.ofNat (min data.length 64))
    (packField (ljust data 64) 64)
  have hlen : (UInt8.ofNat (min data.length 64)).toNat = min data.length 64 := by
    simp only [UInt8.toNat, UInt8.ofNat, BitVec.toNat_ofNat]; omega
  unfold decodeFrame
  rw [length_packFd, if_pos rfl]
  dsimp only [packFd]
  rw [h4, hb, hlen, slice_header (by simp), fromBytesLE_toBytesLE_of_lt (by omega),
    take_packField (by omega) (by simp only [length_ljust]; omega), take_ljust (by omega)]

end WireTap.Can.Kernel
