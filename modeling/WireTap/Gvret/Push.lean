import WireTap.ByteString
import WireTap.Can.Id
import WireTap.Can.Dlc

/-! # The frame push

For every frame `run` reads, each client in binary mode gets one GVRET push:

    F1 00 <u32 ts_us> <u32 id, bit 31 = extended> <bus << 4 | DLC> <payload> 00

`pushMsg` is the message `GVRETClient.send_frame` writes, for the clock reading `elapsedUs`
(`int((time.monotonic() - self.t0) * 1_000_000)`).  `decodePushes` is the grammar a client parses
the stream with.  `decodePushes_pushMsgs` is the stream round trip: the concatenated pushes of any
list of frames decode, to the last byte, to the frames' flags, identifiers, buses and payloads.
It rests on the DLC nibble expanding, through `dlc_to_len`, to exactly the number of payload bytes
written (`dlcToLen_pushDlc`). -/

namespace WireTap.Gvret.Push

open WireTap.ByteString WireTap.Can.Id WireTap.Can.Dlc

/-- `data_len` of `send_frame`: the payload is cut to 64 bytes for FD and 8 for classic. -/
def pushLen (data : Bytes) (isFd : Bool) : Nat :=
  if isFd then min data.length 64 else min data.length 8

/-- `dlc` of `send_frame`: `len_to_dlc(data_len)` for FD, `data_len` for classic. -/
def pushDlc (data : Bytes) (isFd : Bool) : Nat :=
  if isFd then lenToDlc (pushLen data isFd) else pushLen data isFd

/-- `bus_and_dlc = ((bus & 0x0F) << 4) | (dlc & 0x0F)`. -/
def busAndDlc (bus dlc : Nat) : Nat := ((bus &&& 0x0F) <<< 4) ||| (dlc &&& 0x0F)

/-- **The push of `GVRETClient.send_frame`** (binary mode), for the clock reading `elapsedUs`. -/
def pushMsg (elapsedUs canId bus : Nat) (data : Bytes) (isFd : Bool) : Bytes :=
  let tsUs := elapsedUs &&& 0xFFFFFFFF
  let gvretId := withEff (arbIdOf canId) (extendedOf canId)
  [0xF1, 0x00] ++ toBytesLE 4 tsUs ++ toBytesLE 4 gvretId ++
    [UInt8.ofNat (busAndDlc bus (pushDlc data isFd))] ++ data.take (pushLen data isFd) ++ [0x00]

/-! ## The push grammar -/

/-- One decoded push: extended flag, arbitration id, bus and payload. -/
structure DecodedPush where
  ext : Bool
  arbId : Nat
  bus : Nat
  data : Bytes
  deriving DecidableEq, Repr

/-- One push off the front of a stream, and the rest: `F1 00`, four timestamp bytes, the id with
the extended flag in bit 31, the bus/DLC byte, `dlc_to_len(d, fd)` payload bytes, a `00`. -/
def decodePush (fd : Bool) : Bytes → Option (DecodedPush × Bytes)
  | a :: b :: rest =>
    if a = 0xF1 ∧ b = 0x00 ∧ 9 ≤ rest.length then
      let gid := fromBytesLE ((rest.drop 4).take 4)
      let bd := (rest.getD 8 0).toNat
      let n := dlcToLen (bd % 16) fd
      let body := rest.drop 9
      if n < body.length ∧ body.getD n 1 = 0 then
        some (⟨decide (2 ^ 31 ≤ gid), gid % 2 ^ 31, bd / 16, body.take n⟩, body.drop (n + 1))
      else none
    else none
  | _ => none

/-- Pushes until the stream is used up; `fuel` bounds the number of messages. -/
def decodePushesAux (fd : Bool) : Nat → Bytes → Option (List DecodedPush)
  | _, [] => some []
  | 0, _ :: _ => none
  | fuel + 1, b@(_ :: _) =>
    match decodePush fd b with
    | some (p, rest) => (decodePushesAux fd fuel rest).map (p :: ·)
    | none => none

/-- **The push grammar**: the whole byte string as a sequence of pushes, or `none`. -/
def decodePushes (fd : Bool) (b : Bytes) : Option (List DecodedPush) := decodePushesAux fd b.length b

/-! ## The round trip -/

/-- A frame as `run` hands it to `send_frame`, with the clock reading of its push. -/
structure PushedFrame where
  elapsedUs : Nat
  canId : Nat
  bus : Nat
  data : Bytes
  isFd : Bool

/-- What `run` can hand over: a 32-bit id, a bus that fits the nibble, and an FD payload of a
length the kernel delivers (and a client reading FD codes). -/
def PushedFrame.Valid (fd : Bool) (f : PushedFrame) : Prop :=
  f.canId < 2 ^ 32 ∧ f.bus < 16 ∧ (f.isFd = true → ValidFdLen f.data.length ∧ fd = true)

instance (fd : Bool) (f : PushedFrame) : Decidable (f.Valid fd) :=
  inferInstanceAs (Decidable (_ ∧ _ ∧ _))

/-- What the grammar should give back for a frame. -/
def PushedFrame.expected (f : PushedFrame) : DecodedPush :=
  ⟨extendedOf f.canId, arbIdOf f.canId, f.bus, f.data.take (if f.isFd then 64 else 8)⟩

/-- The push message of a frame. -/
def PushedFrame.msg (f : PushedFrame) : Bytes := pushMsg f.elapsedUs f.canId f.bus f.data f.isFd

theorem busAndDlc_eq (bus dlc : Nat) : busAndDlc bus dlc = bus % 16 * 16 + dlc % 16 := by
  have key : ∀ x < 16, ∀ y < 16, (x <<< 4) ||| y = x * 16 + y := by decide
  have h15 : (0x0F : Nat) = 2 ^ 4 - 1 := rfl
  rw [busAndDlc, h15, Nat.and_pow_two_sub_one_eq_mod, Nat.and_pow_two_sub_one_eq_mod,
    key _ (Nat.mod_lt _ (by decide)) _ (Nat.mod_lt _ (by decide))]

theorem pushDlc_lt (data : Bytes) (isFd : Bool) : pushDlc data isFd < 16 := by
  cases isFd
  · simp only [pushDlc, pushLen, Bool.false_eq_true, if_false]; omega
  · have := lenToDlc_le (min data.length 64)
    simp only [pushDlc, pushLen, if_true]; omega

theorem dlcToLen_pushDlc {f : PushedFrame} {fd : Bool} (hv : f.Valid fd) :
    dlcToLen (pushDlc f.data f.isFd) fd = pushLen f.data f.isFd := by
  obtain ⟨-, -, hfd⟩ := hv
  unfold pushDlc pushLen
  cases h : f.isFd
  · simp only [Bool.false_eq_true, if_false]; exact dlcToLen_of_le (by omega) fd
  · obtain ⟨hl, rfl⟩ := hfd h
    have h64 : f.data.length ≤ 64 := by
      rcases hl with hl | hl
      · omega
      · simp at hl; omega
    simp only [if_true, min_eq_left h64]
    exact dlcToLen_lenToDlc hl

theorem take_min_length (l : Bytes) (n : Nat) : l.take (min l.length n) = l.take n := by
  rcases le_total l.length n with h | h
  · rw [min_eq_left h, List.take_length, List.take_of_length_le h]
  · rw [min_eq_right h]

theorem length_take_pushLen (data : Bytes) (isFd : Bool) :
    (data.take (pushLen data isFd)).length = pushLen data isFd := by
  unfold pushLen; split <;> simp

theorem decodePush_msg (fd : Bool) {t g p : Bytes} (ht : t.length = 4) (hg : g.length = 4)
    {bd : UInt8} (hp : dlcToLen (bd.toNat % 16) fd = p.length) (rest : Bytes) :
    decodePush fd ([0xF1, 0x00] ++ t ++ g ++ [bd] ++ p ++ [0x00] ++ rest) =
      some (⟨decide (2 ^ 31 ≤ fromBytesLE g), fromBytesLE g % 2 ^ 31, bd.toNat / 16, p⟩, rest) := by
  match t, ht, g, hg with
  | [_, _, _, _], _, [_, _, _, _], _ => simp [decodePush, hp, List.getElem_append_right]

/-- The message of a valid frame decodes to the frame's expected fields. -/
theorem decodePush_pushMsg {f : PushedFrame} {fd : Bool} (hv : f.Valid fd) (rest : Bytes) :
    decodePush fd (f.msg ++ rest) = some (f.expected, rest) := by
  have hid : arbIdOf f.canId < 2 ^ 29 := arbIdOf_lt f.canId
  have hgid := withEff_eq (lt_trans hid (by decide)) (extendedOf f.canId)
  have hd := pushDlc_lt f.data f.isFd
  have hb := hv.2.1
  have hbd : (UInt8.ofNat (busAndDlc f.bus (pushDlc f.data f.isFd))).toNat =
      f.bus * 16 + pushDlc f.data f.isFd := by
    rw [busAndDlc_eq]
    simp only [UInt8.toNat, UInt8.ofNat, BitVec.toNat_ofNat]
    omega
  have hp : dlcToLen ((UInt8.ofNat (busAndDlc f.bus (pushDlc f.data f.isFd))).toNat % 16) fd =
      (f.data.take (pushLen f.data f.isFd)).length := by
    rw [hbd, length_take_pushLen, ← dlcToLen_pushDlc hv]
    congr 1; omega
  have h := decodePush_msg fd (length_toBytesLE 4 (f.elapsedUs &&& 0xFFFFFFFF))
    (length_toBytesLE 4 (withEff (arbIdOf f.canId) (extendedOf f.canId))) hp rest
  simp only [List.append_assoc] at h
  simp only [PushedFrame.msg, pushMsg, List.append_assoc]
  rw [h, fromBytesLE_toBytesLE_of_lt (by rw [hgid]; split <;> omega), hgid, hbd]
  simp only [PushedFrame.expected, Option.some.injEq, Prod.mk.injEq, DecodedPush.mk.injEq,
    and_true]
  refine ⟨?_, ?_, by omega, ?_⟩
  · cases extendedOf f.canId
    · simp only [Bool.false_eq_true, ↓reduceIte, add_zero, decide_eq_false_iff_not, not_le]; omega
    · simp
  · split <;> omega
  · unfold pushLen; split <;> simp [take_min_length]

theorem decodePushesAux_succ {fd : Bool} (fuel : Nat) {b rest : Bytes} {p : DecodedPush}
    (hb : b ≠ []) (h : decodePush fd b = some (p, rest)) :
    decodePushesAux fd (fuel + 1) b = (decodePushesAux fd fuel rest).map (p :: ·) := by
  cases b with
  | nil => exact absurd rfl hb
  | cons => simp only [decodePushesAux, h]

theorem msg_ne_nil (f : PushedFrame) (rest : Bytes) : f.msg ++ rest ≠ [] := by
  simp [PushedFrame.msg, pushMsg]

theorem length_le_length_msgs (frames : List PushedFrame) :
    frames.length ≤ (frames.flatMap PushedFrame.msg).length := by
  induction frames with
  | nil => simp
  | cons f fs ih =>
    have : 1 ≤ f.msg.length := by simp [PushedFrame.msg, pushMsg]
    simp only [List.flatMap_cons, List.length_append, List.length_cons]
    omega

theorem decodePushesAux_msgs {fd : Bool} :
    ∀ (frames : List PushedFrame) (fuel : Nat), (∀ f ∈ frames, f.Valid fd) →
      frames.length ≤ fuel →
        decodePushesAux fd fuel (frames.flatMap PushedFrame.msg) =
          some (frames.map PushedFrame.expected)
  | [], fuel, _, _ => by cases fuel <;> rfl
  | f :: fs, fuel + 1, hv, hl => by
    rw [List.flatMap_cons, decodePushesAux_succ fuel (msg_ne_nil f _)
      (decodePush_pushMsg (hv f (List.mem_cons_self f fs)) _),
      decodePushesAux_msgs fs fuel (fun g hg => hv g (List.mem_cons_of_mem f hg))
        (by simp at hl; omega)]
    rfl

/-- **Push stream round trip.**  The concatenated pushes `send_frame` writes for any list of
frames decode, consuming every byte, to the frames' extended flags, arbitration ids, buses and
payloads (cut to 8 bytes for classic frames, 64 for FD). -/
theorem decodePushes_pushMsgs (fd : Bool) (frames : List PushedFrame)
    (hv : ∀ f ∈ frames, f.Valid fd) :
    decodePushes fd (frames.flatMap PushedFrame.msg) = some (frames.map PushedFrame.expected) :=
  decodePushesAux_msgs frames _ hv (length_le_length_msgs frames)

/-- The round trip on a classic frame `0x123 [AA BB CC]` on bus 0 and an
extended FD frame `0x1ABCDEF` with 12 bytes on bus 1. -/
theorem decodePushes_pushMsgs_scenarios :
    (∀ f ∈ [(⟨0, 0x123, 0, [0xAA, 0xBB, 0xCC], false⟩ : PushedFrame),
        ⟨5, 0x81ABCDEF, 1, List.range 12 |>.map UInt8.ofNat, true⟩], f.Valid true) ∧
    decodePushes true ([(⟨0, 0x123, 0, [0xAA, 0xBB, 0xCC], false⟩ : PushedFrame),
        ⟨5, 0x81ABCDEF, 1, List.range 12 |>.map UInt8.ofNat, true⟩].flatMap PushedFrame.msg) =
      some ([(⟨0, 0x123, 0, [0xAA, 0xBB, 0xCC], false⟩ : PushedFrame),
        ⟨5, 0x81ABCDEF, 1, List.range 12 |>.map UInt8.ofNat, true⟩].map PushedFrame.expected) :=
  have hv : ∀ f ∈ [(⟨0, 0x123, 0, [0xAA, 0xBB, 0xCC], false⟩ : PushedFrame),
      ⟨5, 0x81ABCDEF, 1, List.range 12 |>.map UInt8.ofNat, true⟩], f.Valid true := by decide
  ⟨hv, decodePushes_pushMsgs true _ hv⟩

end WireTap.Gvret.Push
