import WireTap.ByteString
import WireTap.Can.Id

/-! # The client session

`GVRETClient._rx_loop` reads the socket in chunks and appends each to `self.buf`.  After every
chunk it runs two loops over the buffer:

* the handshake loop: while the buffer holds `E7 E7`, delete everything up to and including the
  first one and set `binary` (`handshake`);
* while `binary`, the request loop: drop leading bytes other than `F1` (resync), then consume one
  `F1 <cmd>` request, a `BUILD_FRAME` (`F1 00`) only once all `8 + dlc` bytes are there
  (`requestStep`, `requestLoop`).

A consumed request makes one call: a reply (`reply_dev_info`, `reply_canbus_params`, ...) or
`tx_func(bus, can_id, data)`.  The loops never read what a call returns, so what a chunk does is
the new buffer state and the list of calls it makes (`onChunk`); a call that raises cuts that list
short, since nothing catches it before the `finally: self.close()` (`rxStep`).

The loops run under a `fuel` bound equal to the buffer's length; every iteration that does not
exit removes bytes, so the bound is never reached. -/

namespace WireTap.Gvret.Session

open WireTap.ByteString WireTap.Can.Id

/-- A call the request loop makes for a consumed request. -/
inductive Call
  | devInfo
  | canbusParams
  | numBuses
  | timebase
  | keepalive
  | tx (bus canId : Nat) (data : Bytes)
  deriving DecidableEq, Repr

/-- `buf.find(b"\xE7\xE7")`, with `none` for `-1`. -/
def findE7E7 : Bytes → Option Nat
  | a :: b :: rest => if a = 0xE7 ∧ b = 0xE7 then some 0 else (findE7E7 (b :: rest)).map (· + 1)
  | _ => none

/-- **The handshake loop** of `_rx_loop`, run for at most `fuel` iterations:

    while True:
        idx = self.buf.find(b"\xE7\xE7")
        if idx == -1: break
        del self.buf[:idx + 2]
        if not self.binary: self.binary = True -/
def handshake : Nat → Bool → Bytes → Bool × Bytes
  | 0, binary, buf => (binary, buf)
  | fuel + 1, binary, buf =>
    match findE7E7 buf with
    | none => (binary, buf)
    | some idx => handshake fuel true (buf.drop (idx + 2))

/-- **`_try_consume_send_frame`**: `none` is `return False` (fewer than `8 + dlc` bytes);
otherwise the buffer after `del self.buf[:need]` and the `tx_func` call. -/
def tryConsumeSendFrame (buf : Bytes) : Option (Bytes × Call) :=
  if buf.length < 8 then none
  else if ¬ (buf.getD 0 0 = 0xF1 ∧ buf.getD 1 0 = 0x00) then none
  else
    let need := 8 + (buf.getD 7 0).toNat
    if buf.length < need then none
    else
      let canIdLe := fromBytesLE (slice buf 2 6)
      let bus := (buf.getD 6 0).toNat &&& 0xFF
      let dlc := min (buf.getD 7 0).toNat 8
      let data := slice buf 8 (8 + dlc)
      let canIdSc := withEff (arbIdOf canIdLe) (extendedOf canIdLe)
      some (buf.drop need, .tx bus canIdSc data)

/-- `_try_consume_send_frame` on a buffer that starts `F1 00`: it consumes the `8 + dlc` bytes of
the request once they are all there, and injects the first `min(dlc, 8)` data bytes. -/
theorem tryConsumeSendFrame_cons (more : Bytes) :
    tryConsumeSendFrame (0xF1 :: 0x00 :: more) =
      if 6 ≤ more.length ∧ 6 + (more.getD 5 0).toNat ≤ more.length then
        some (more.drop (6 + (more.getD 5 0).toNat),
          .tx (more.getD 4 0).toNat
            (withEff (arbIdOf (fromBytesLE (more.take 4))) (extendedOf (fromBytesLE (more.take 4))))
            ((more.drop 6).take (min (more.getD 5 0).toNat 8)))
      else none := by
  have hb : (more.getD 4 0).toNat &&& 0xFF = (more.getD 4 0).toNat :=
    Nat.and_pow_two_sub_one_of_lt_two_pow (show _ < 2 ^ 8 from (more.getD 4 0).toNat_lt_size)
  unfold tryConsumeSendFrame
  simp only [List.length_cons, List.getD_cons_succ, List.getD_cons_zero, and_self, not_true_eq_false,
    ↓reduceIte, hb, ByteString.slice, List.drop_succ_cons, List.drop_zero, Nat.add_sub_cancel_left]
  by_cases hc : 6 ≤ more.length ∧ 6 + (more.getD 5 0).toNat ≤ more.length
  · rw [if_neg (by omega), if_neg (by omega), if_pos hc,
      show 8 + (more.getD 5 0).toNat = 6 + (more.getD 5 0).toNat + 1 + 1 by omega]
    rfl
  · rw [if_neg hc]
    split_ifs <;> first | rfl | omega

/-- **The buffers the request loop breaks on**: empty, a lone `F1`, or an `F1 00` request with
fewer than `8 + dlc` bytes (a `dlc` byte not yet received counts as `0`). -/
def Waiting (buf : Bytes) : Prop :=
  buf = [] ∨ buf = [0xF1] ∨ (buf.take 2 = [0xF1, 0x00] ∧ buf.length < 8 + (buf.getD 7 0).toNat)

instance (buf : Bytes) : Decidable (Waiting buf) := inferInstanceAs (Decidable (_ ∨ _ ∨ _))

theorem tryConsumeSendFrame_eq_none_iff (more : Bytes) :
    tryConsumeSendFrame (0xF1 :: 0x00 :: more) = none ↔ Waiting (0xF1 :: 0x00 :: more) := by
  rw [tryConsumeSendFrame_cons]
  simp only [Waiting, List.take_succ_cons, List.take_zero, List.length_cons, List.getD_cons_succ,
    List.cons.injEq, reduceCtorEq, and_false, false_or, true_and]
  split_ifs with hc
  · simp only [reduceCtorEq, false_iff]; omega
  · simp only [true_iff]; omega

/-- The reply dispatch of `_rx_loop`; unknown opcodes are ignored. -/
def dispatch (cmd : UInt8) : Option Call :=
  if cmd = 0x07 then some .devInfo
  else if cmd = 0x06 then some .canbusParams
  else if cmd = 0x0C then some .numBuses
  else if cmd = 0x01 then some .timebase
  else if cmd = 0x09 then some .keepalive
  else none

/-- How one iteration of the request loop ends: at a `break`, or having consumed a request. -/
inductive ReqStep
  | exit (buf : Bytes)
  | next (buf : Bytes) (call : Option Call)

/-- **One iteration of `while self.binary:`**: the resync, then one `F1 <cmd>` request. -/
def requestStep (buf : Bytes) : ReqStep :=
  match buf.dropWhile (· != 0xF1) with
  | b :: cmd :: rest =>
    if b ≠ 0xF1 then .exit (b :: cmd :: rest)
    else if cmd = 0x00 then
      match tryConsumeSendFrame (b :: cmd :: rest) with
      | some (buf', call) => .next buf' (some call)
      | none => .exit (b :: cmd :: rest)
    else .next rest (dispatch cmd)
  | buf' => .exit buf'

/-- **The request loop**, run for at most `fuel` iterations: the buffer it leaves and the calls it
makes, in order. -/
def requestLoop : Nat → Bytes → Bytes × List Call
  | 0, buf => (buf, [])
  | fuel + 1, buf =>
    match requestStep buf with
    | .exit buf' => (buf', [])
    | .next buf' call => ((requestLoop fuel buf').1, call.toList ++ (requestLoop fuel buf').2)

/-- The parser state of a `GVRETClient`: `self.binary` and `self.buf`. -/
structure ClientState where
  binary : Bool
  buf : Bytes
  deriving DecidableEq, Repr

/-- A fresh session (`__init__`). -/
def ClientState.init : ClientState := ⟨false, []⟩

/-- **What one received chunk does**: `self.buf.extend(chunk)`, the handshake loop, then the
request loop while `binary`; the new state and the calls made, when every call returns. -/
def onChunk (s : ClientState) (chunk : Bytes) : ClientState × List Call :=
  let buf := s.buf ++ chunk
  let hs := handshake buf.length s.binary buf
  if hs.1 then
    let r := requestLoop hs.2.length hs.2
    (⟨true, r.1⟩, r.2)
  else (⟨false, hs.2⟩, [])

/-- The calls made over a sequence of chunks, every call returning. -/
def onChunks : ClientState → List Bytes → ClientState × List Call
  | s, [] => (s, [])
  | s, c :: cs => ((onChunks (onChunk s c).1 cs).1, (onChunk s c).2 ++ (onChunks (onChunk s c).1 cs).2)

/-! ## Replies -/

/-- `reply_dev_info`: build 400, EEPROM version 1, three zero bytes. -/
def replyDevInfo : Bytes := [0xF1, 0x07] ++ toBytesLE 2 400 ++ [1, 0, 0, 0]

/-- `bus_speeds[i] if n >= i + 1 else 0`, with `none` for the `IndexError`. -/
def advertisedSpeed (busCount : Nat) (busSpeeds : List Nat) (i : Nat) : Option Nat :=
  if busCount ≥ i + 1 then busSpeeds.get? i else some 0

/-- `1 if n >= i + 1 else 0`: the enabled bit of a flags byte (listen-only is always 0). -/
def advertisedFlags (busCount i : Nat) : UInt8 := if busCount ≥ i + 1 then 1 else 0

/-- **`reply_canbus_params`**: flags and little-endian speed of buses 0 and 1; `none` when it raises
(`IndexError` on `bus_speeds`, `OverflowError` in `to_bytes`). -/
def replyCanbusParams (busCount : Nat) (busSpeeds : List Nat) : Option Bytes := do
  let s0 ← advertisedSpeed busCount busSpeeds 0
  let s1 ← advertisedSpeed busCount busSpeeds 1
  if s0 < 2 ^ 32 ∧ s1 < 2 ^ 32 then
    some ([0xF1, 0x06, advertisedFlags busCount 0] ++ toBytesLE 4 s0 ++
      [advertisedFlags busCount 1] ++ toBytesLE 4 s1)
  else none

/-- `reply_num_buses`: `bytes([self.bus_count & 0xFF])`. -/
def replyNumBuses (busCount : Nat) : Bytes := [0xF1, 0x0C, UInt8.ofNat (busCount &&& 0xFF)]

/-- `reply_timebase`, for the clock reading `elapsedUs`. -/
def replyTimebase (elapsedUs : Nat) : Bytes := [0xF1, 0x01] ++ toBytesLE 4 (elapsedUs &&& 0xFFFFFFFF)

/-- `reply_keepalive`. -/
def replyKeepalive : Bytes := [0xF1, 0x09, 0xDE, 0xAD]

/-! ## The receive loop -/

/-- What `self.conn.recv(4096)` gives `_rx_loop`. -/
inductive Recv
  /-- a non-empty chunk -/
  | data (chunk : Bytes)
  /-- `socket.timeout`, the only exception caught -/
  | timeout
  /-- `b""`: the peer closed the connection -/
  | eof
  /-- any other error of the session's own socket -/
  | fail

/-- The session as `_rx_loop` runs it: the parser state, the calls made so far, `self.alive`. -/
structure RxState where
  client : ClientState
  calls : List Call
  alive : Bool

/-- A fresh session. -/
def RxState.init : RxState := ⟨ClientState.init, [], true⟩

/-- The calls a chunk really makes, numbered from `k`: up to and including the first that raises,
and whether one did. -/
def callsUntilRaise (raises : Nat → Call → Bool) : Nat → List Call → List Call × Bool
  | _, [] => ([], false)
  | k, c :: cs =>
    if raises k c then ([c], true)
    else (c :: (callsUntilRaise raises (k + 1) cs).1, (callsUntilRaise raises (k + 1) cs).2)

/-- **One pass of `while self.alive:`** in `_rx_loop`.  `raises k c` says whether the session's
`k`-th call raises; a raising call ends the loop through `finally: self.close()`. -/
def rxStep (raises : Nat → Call → Bool) (st : RxState) : Recv → RxState
  | .timeout => st
  | .eof | .fail => { st with alive := false }
  | .data chunk =>
    let r := onChunk st.client chunk
    let made := callsUntilRaise raises st.calls.length r.2
    ⟨r.1, st.calls ++ made.1, !made.2⟩

/-- **`_rx_loop`** over the results of successive `recv` calls. -/
def rxLoop (raises : Nat → Call → Bool) : RxState → List Recv → RxState
  | st, [] => st
  | st, r :: rs => if st.alive then rxLoop raises (rxStep raises st r) rs else st

end WireTap.Gvret.Session
