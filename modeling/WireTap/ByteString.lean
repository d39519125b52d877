import Mathlib.Data.List.Basic
import Mathlib.Data.Nat.Bitwise

/-! # Bytes and little-endian integers

The server's byte strings (`bytes`, `bytearray`, the buffers of a client session, the kernel's
frame layouts) are lists of `UInt8`.  Python's `int.to_bytes(n, "little")` and
`int.from_bytes(b, "little")` are defined arithmetically, and so are `toBytesLE` and
`fromBytesLE`: every field the code packs is reduced below `256 ^ n` before it is packed (ids are
`< 2^32`, `ts_us` is masked with `0xFFFFFFFF`), so `to_bytes` never overflows in the modelled
calls and `toBytesLE` takes the value modulo `256 ^ n`.

Slices are `take`/`drop`, as Python clamps them: `b[i:j]` is `(b.drop i).take (j - i)`. -/

namespace WireTap.ByteString

/-- A Python byte string. -/
abbrev Bytes := List UInt8

/-- `x.to_bytes(n, "little")`, for `x < 256 ^ n`. -/
def toBytesLE : Nat → Nat → Bytes
  | 0, _ => []
  | n + 1, x => UInt8.ofNat (x % 256) :: toBytesLE n (x / 256)

/-- `int.from_bytes(b, "little")`. -/
def fromBytesLE : Bytes → Nat
  | [] => 0
  | b :: bs => b.toNat + 256 * fromBytesLE bs

/-- Python's slice `b[i:j]`. -/
def slice (b : Bytes) (i j : Nat) : Bytes := (b.drop i).take (j - i)

/-- `b.ljust(n, b"\x00")`: pad with zero bytes up to length `n`. -/
def ljust (b : Bytes) (n : Nat) : Bytes := b ++ List.replicate (n - b.length) 0

/-- `struct.pack("<ns", b)`: the field of a packed struct, truncated or zero-padded to `n` bytes. -/
def packField (b : Bytes) (n : Nat) : Bytes := ljust (b.take n) n

@[simp] theorem length_toBytesLE (n x : Nat) : (toBytesLE n x).length = n := by
  induction n generalizing x with
  | zero => rfl
  | succ n ih => simp [toBytesLE, ih]

theorem fromBytesLE_toBytesLE (n x : Nat) : fromBytesLE (toBytesLE n x) = x % 256 ^ n := by
  induction n generalizing x with
  | zero => simp [toBytesLE, fromBytesLE, Nat.mod_one]
  | succ n ih =>
    have hb : (UInt8.ofNat (x % 256)).toNat = x % 256 := by
      simp [UInt8.toNat, UInt8.ofNat]
    rw [toBytesLE, fromBytesLE, ih, hb, Nat.pow_succ', Nat.mod_mul, Nat.add_comm]

/-- Decoding a little-endian word that fits gives it back. -/
theorem fromBytesLE_toBytesLE_of_lt {n x : Nat} (h : x < 256 ^ n) :
    fromBytesLE (toBytesLE n x) = x := by
  rw [fromBytesLE_toBytesLE, Nat.mod_eq_of_lt h]

/-- Encoding a little-endian word at its own width gives the bytes back. -/
theorem toBytesLE_fromBytesLE (b : Bytes) : toBytesLE b.length (fromBytesLE b) = b := by
  induction b with
  | nil => rfl
  | cons a b ih =>
    have ha : a.toNat < 256 := a.toNat_lt_size
    have hmod : (a.toNat + 256 * fromBytesLE b) % 256 = a.toNat := by omega
    have hdiv : (a.toNat + 256 * fromBytesLE b) / 256 = fromBytesLE b := by omega
    rw [List.length_cons, toBytesLE, fromBytesLE, hmod, hdiv, ih,
      UInt8.toNat.inj (UInt8.toNat_ofNat_of_lt ha)]

theorem fromBytesLE_lt (b : Bytes) : fromBytesLE b < 256 ^ b.length := by
  induction b with
  | nil => simp [fromBytesLE]
  | cons a b ih =>
    have ha : a.toNat < 256 := a.toNat_lt_size
    simp only [fromBytesLE, List.length_cons, Nat.pow_succ']
    omega

@[simp] theorem length_ljust (b : Bytes) (n : Nat) : (ljust b n).length = max b.length n := by
  simp only [ljust, List.length_append, List.length_replicate]
  omega

@[simp] theorem length_packField (b : Bytes) (n : Nat) : (packField b n).length = n := by
  simp only [packField, length_ljust, List.length_take]
  omega

theorem take_ljust {b : Bytes} {k : Nat} (h : k ≤ b.length) (n : Nat) :
    (ljust b n).take k = b.take k :=
  List.take_append_of_le_length h

theorem take_packField {b : Bytes} {k n : Nat} (hk : k ≤ n) (hb : k ≤ b.length) :
    (packField b n).take k = b.take k := by
  rw [packField, take_ljust (by simp only [List.length_take]; omega), List.take_take, min_eq_left hk]

theorem slice_header {h b : Bytes} (hh : h.length = 8) (k : Nat) :
    slice (h ++ b) 8 (8 + k) = b.take k := by
  simp [ByteString.slice, List.drop_append_eq_append_drop, hh]

end WireTap.ByteString
