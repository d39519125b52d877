import WireTap.Gvret.Session

/-! # The request grammar

The protocol's reference session `R` (§4.3 of the design), written from its own words and not
from `_rx_loop`: in the ASCII state it discards everything up to and including the first `E7 E7`
and enters the binary state; in the binary state it repeatedly

* discards a head byte other than `F1`;
* on `F1 00` with all `8 + dlc` bytes present, injects the frame: bus, identifier (low 29 bits and
  `CAN_EFF_FLAG` when bit 31 is set, low 11 bits otherwise) and the first `min(dlc, 8)` data bytes,
  and consumes `8 + dlc` bytes;
* on `F1 op` with `op ≠ 00`, answers `op` if it is one of `01 06 07 09 0C` and consumes 2 bytes;
* otherwise waits for more bytes.

`refSession` is what `R` does with all the bytes received so far; the session refines it when,
after every chunk, the calls `onChunks` has made are `refSession` of the bytes so far. -/

namespace WireTap.Gvret.Grammar

open WireTap.ByteString WireTap.Gvret.Session

/-- The reply `R` gives to an opcode of the request table. -/
def refReply (op : UInt8) : Option Call :=
  if op = 0x01 then some .timebase
  else if op = 0x06 then some .canbusParams
  else if op = 0x07 then some .devInfo
  else if op = 0x09 then some .keepalive
  else if op = 0x0C then some .numBuses
  else none

/-- The identifier `R` injects for a 32-bit id field. -/
def refId (id : Nat) : Nat := if 2 ^ 31 ≤ id then id % 2 ^ 29 + 2 ^ 31 else id % 2 ^ 11

/-- `R` in the binary state, on the bytes it has not consumed; `fuel` bounds the steps. -/
def refBinary : Nat → Bytes → List Call
  | 0, _ => []
  | _ + 1, [] => []
  | fuel + 1, b :: rest =>
    if b ≠ 0xF1 then refBinary fuel rest
    else match rest with
      | [] => []
      | op :: more =>
        if op ≠ 0x00 then (refReply op).toList ++ refBinary fuel more
        else if 6 ≤ more.length ∧ 6 + (more.getD 5 0).toNat ≤ more.length then
          .tx (more.getD 4 0).toNat (refId (fromBytesLE (more.take 4)))
              ((more.drop 6).take (min (more.getD 5 0).toNat 8)) ::
            refBinary fuel (more.drop (6 + (more.getD 5 0).toNat))
        else []

/-- `R` in the ASCII state: the bytes after the first `E7 E7`, if there is one. -/
def refAscii : Bytes → Option Bytes
  | a :: b :: rest => if a = 0xE7 ∧ b = 0xE7 then some rest else refAscii (b :: rest)
  | _ => none

/-- **The reference session**: what `R` does with the bytes received so far. -/
def refSession (stream : Bytes) : List Call :=
  match refAscii stream with
  | none => []
  | some rest => refBinary rest.length rest

/-- A `BUILD_FRAME` for id 0 on bus 0 whose two data bytes are `E7 E7`, sent right after the
handshake in one segment: the grammar injects it, while `_rx_loop`'s handshake search, which also
runs in the binary state, deletes it. -/
theorem onChunks_deletes_frame_with_e7e7 :
    (onChunks ClientState.init [[0xE7, 0xE7, 0xF1, 0x00, 0, 0, 0, 0, 0, 2, 0xE7, 0xE7]]).2 = [] ∧
    refSession [0xE7, 0xE7, 0xF1, 0x00, 0, 0, 0, 0, 0, 2, 0xE7, 0xE7] = [.tx 0 0 [0xE7, 0xE7]] := by
  decide

end WireTap.Gvret.Grammar
