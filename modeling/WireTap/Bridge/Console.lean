import WireTap.Can.Id
import WireTap.Can.Kernel

/-! # The console echo

With `--echo-console`, `CanTcpServer.run` prints every frame it reads with `format_candump_line`.
That function parses the frame again by itself.  It tells the two kernel layouts apart by size,
reads the id, the DLC (or the FD length byte) and the FD flags (`candumpFields`), and prints a
candump-style line.  The line's two payload columns, hex bytes and ASCII, are both maps over the
same bytes `data` (`payloadColumns`, `candumpData`, `formatCandumpLine_columns`).

For a classic frame these are the bytes `run` decodes and fans out.  For an FD frame,
`format_candump_line` passes the length byte through `dlc_to_len` as if it were a DLC.  It prints
the bytes `run` decodes exactly when that length is at most 8 (`candumpData_eq_decoded_iff`).  An
FD frame of 12 bytes is printed with 24.
-/

namespace WireTap.Bridge.Console

open WireTap.ByteString WireTap.Can.Id WireTap.Can.Dlc WireTap.Can.Kernel

/-! ## Text -/

/-- `CANFD_BRS`, the bit rate switch flag. -/
def canfdBrs : Nat := 0x01

/-- `CANFD_ESI`, the error state indicator flag. -/
def canfdEsi : Nat := 0x02

/-- `_colour_red`: `s` between the escapes for red and reset, when enabled. -/
def colourRed (s : String) (enable : Bool) : String := if enable then "\x1b[31m" ++ s ++ "\x1b[0m" else s

/-- `_colour_yellow`. -/
def colourYellow (s : String) (enable : Bool) : String :=
  if enable then "\x1b[33m" ++ s ++ "\x1b[0m" else s

/-- `s` with zeros in front up to width `w`, as the `0w` of a format specification. -/
def zeroPad (w : Nat) (s : String) : String := "".pushn '0' (w - s.length) ++ s

/-- `f"{n:0wX}"`: upper-case hex digits, zero-padded to width `w`. -/
def hexField (w n : Nat) : String := zeroPad w (String.mk ((Nat.toDigits 16 n).map Char.toUpper))

/-- `str.ljust(w)`: `s` with spaces after it up to width `w`. -/
def ljustStr (s : String) (w : Nat) : String := s ++ "".pushn ' ' (w - s.length)

/-- `0x20 <= b <= 0x7E`. -/
def isPrint (b : UInt8) : Bool := 0x20 ≤ b.toNat && b.toNat ≤ 0x7E

/-- `chr(b) if is_print else "."`. -/
def asciiOf (b : UInt8) : String := if isPrint b then (Char.ofNat b.toNat).toString else "."

/-- `f"{sec}.{ms:03d}_{us:03d}"` for `rel_us` microseconds since `t0_us`. -/
def relTimestamp (relUs : Nat) : String :=
  toString (relUs / 1000000) ++ "." ++ zeroPad 3 (toString (relUs % 1000000 / 1000)) ++ "_" ++
    zeroPad 3 (toString (relUs % 1000))

/-- The timestamp of a line: relative to `t0_us` on the monotonic clock when `t0_us` is set, and
otherwise `wallStr`, the wall clock as `f"{time.time():.6f}"` prints it. -/
def candumpTimestamp (t0Us nowUs : Nat) (wallStr : String) : String :=
  if t0Us ≠ 0 then relTimestamp (nowUs - t0Us) else wallStr

/-- The two payload columns: the hex bytes joined by spaces and padded to `hexPad`, then `" | "`
and the ASCII column, a printable byte coloured red in both when `colorAscii`. -/
def payloadColumns (colorAscii : Bool) (hexPad : Nat) (data : Bytes) : String :=
  ljustStr (" ".intercalate (data.map fun b => colourRed (hexField 2 b.toNat) (colorAscii && isPrint b)))
      hexPad ++ " | " ++
    String.join (data.map fun b => colourRed (asciiOf b) (colorAscii && isPrint b))

/-! ## The line -/

/-- What `format_candump_line` unpacks from a frame: `can_id`, `dlc` (the length byte of an FD
frame), `fd_flags`, `raw`, `data_len` and `is_fd`. -/
structure CandumpFields where
  canId : Nat
  dlc : Nat
  fdFlags : Nat
  raw : Bytes
  dataLen : Nat
  isFd : Bool
  deriving DecidableEq, Repr

/-- The header `format_candump_line` reads: `"<IB"` and `frame_bytes[8:16]` for a 16-byte frame,
`"<IBB"` and `frame_bytes[8:72]` for a 72-byte one with `data_len = dlc_to_len(dlc, is_fd=True)`,
and `none` for any other size. -/
def candumpFields (frame : Bytes) : Option CandumpFields :=
  if frame.length = 16 then
    let dlc := (frame.getD 4 0).toNat
    some ⟨fromBytesLE (frame.take 4), dlc, 0, slice frame 8 16, min dlc 8, false⟩
  else if frame.length = 72 then
    let dlc := (frame.getD 4 0).toNat
    some ⟨fromBytesLE (frame.take 4), dlc, (frame.getD 5 0).toNat, slice frame 8 72,
      dlcToLen dlc true, true⟩
  else none

/-- **`format_candump_line`**: `(<ts>) <ID> <S|E><F><flags> [<dlc>] <b0 .. bN>  | <ASCII>`, with the
bus tag in front when `bus_idx` is given, or `""` for a frame of another size. -/
def formatCandumpLine (frame : Bytes) (colorAscii : Bool) (t0Us nowUs : Nat) (wallStr : String)
    (busIdx : Option Nat) : String :=
  match candumpFields frame with
  | none => ""
  | some f =>
    let data := f.raw.take f.dataLen
    let isExt := f.canId &&& canEffFlag != 0
    let isRtr := f.canId &&& canRtrFlag != 0
    let isErr := f.canId &&& canErrFlag != 0
    let arbId := f.canId &&& (if isExt then canEffMask else canSffMask)
    let idStr := if isExt then hexField 8 arbId else hexField 3 arbId
    let kind := (if isExt then "E" else "S") ++ (if f.isFd then "F" else "")
    let flags := (if isRtr then "R" else "") ++ (if isErr then "!" else "") ++
      (if f.isFd && f.fdFlags &&& canfdBrs != 0 then "B" else "") ++
      (if f.isFd && f.fdFlags &&& canfdEsi != 0 then "E" else "")
    let hexPad := if f.isFd then f.dataLen * 3 - 1 else 23
    let busTag := match busIdx with
      | none => ""
      | some i => colourYellow ("B" ++ toString i ++ " ") colorAscii
    busTag ++ "(" ++ candumpTimestamp t0Us nowUs wallStr ++ ") " ++ idStr ++ " " ++ kind ++ flags ++
      " [" ++ toString f.dlc ++ "] " ++ payloadColumns colorAscii hexPad data ++ "\n"

example : formatCandumpLine [0x23, 1, 0, 0, 3, 0, 0, 0, 0xAA, 0x42, 0xCC, 0, 0, 0, 0, 0] false 0 0
    "1.000000" (some 0) = "B0 (1.000000) 123 S [3] AA 42 CC                | .B.\n" := by decide

/-- The bytes the two payload columns of the line print: `raw[:data_len]`. -/
def candumpData (frame : Bytes) : Option Bytes :=
  (candumpFields frame).map fun f => f.raw.take f.dataLen

theorem formatCandumpLine_columns {frame data : Bytes} (h : candumpData frame = some data)
    (colorAscii : Bool) (t0Us nowUs : Nat) (wallStr : String) (busIdx : Option Nat) :
    ∃ head hexPad, formatCandumpLine frame colorAscii t0Us nowUs wallStr busIdx =
      head ++ payloadColumns colorAscii hexPad data ++ "\n" := by
  obtain ⟨f, hf, rfl⟩ := Option.map_eq_some'.1 h
  unfold formatCandumpLine
  rw [hf]
  exact ⟨_, _, rfl⟩

/-! ## Against the fan-out -/

theorem min_dlcToLen_eq_iff (n : Nat) : min (dlcToLen n true) 64 = min n 64 ↔ n ≤ 8 := by
  by_cases h8 : n ≤ 8
  · rw [dlcToLen, if_pos h8]; exact iff_of_true rfl h8
  · have hfd : ∀ m < 16, 8 < m → min (dlcToLen m true) 64 ≠ min m 64 := by decide
    by_cases h15 : n < 16
    · exact iff_of_false (hfd n h15 (by omega)) h8
    · have : dlcToLen n true = 8 := by simp only [dlcToLen]; split_ifs <;> omega
      rw [this]; omega

/-- **The console prints the payload `run` fans out exactly for classic frames and FD frames of at
most 8 bytes.**  For every 16- or 72-byte kernel frame, the bytes `format_candump_line` prints
are those `run` decodes, `frame[8:8+min(dlc,8)]` or `frame[8:8+len]`, if and only if the frame
is classic or its FD length byte is at most 8. -/
theorem candumpData_eq_decoded_iff {frame : Bytes} (h : frame.length = 16 ∨ frame.length = 72) :
    candumpData frame = (decodeFrame frame).map Decoded.data ↔
      frame.length = 16 ∨ (frame.getD 4 0).toNat ≤ 8 := by
  have h64 : (frame.drop 8).length = frame.length - 8 := List.length_drop 8 frame
  rcases h with h | h
  · simp only [candumpData, candumpFields, decodeFrame, h, ↓reduceIte, Option.map_some',
      ByteString.slice, List.take_take, true_or, iff_true]
    rw [if_neg (by omega), if_neg (by omega)]
    simp only [Option.map_some', Option.some.injEq]
    congr 1; omega
  · rw [or_iff_right (by omega), ← min_dlcToLen_eq_iff]
    simp only [candumpData, candumpFields, decodeFrame, h, ↓reduceIte, Option.map_some',
      ByteString.slice]
    rw [if_neg (by omega)]
    simp only [Option.map_some', Option.some.injEq, Nat.add_sub_cancel_left, List.take_take,
      List.take_eq_take, h64, h, Nat.reduceSub, min_assoc, min_self]

/-- An FD frame with id `0x123` and length 12, carrying the bytes `00 01 .. 3F`. -/
def fdTwelve : Bytes := toBytesLE 4 0x123 ++ [12, 0, 0, 0] ++ (List.range 64).map UInt8.ofNat

/-- Of the FD frame `fdTwelve` the console prints 24 bytes, `dlc_to_len(12, is_fd=True)`, while
`run` fans out 12. -/
theorem candumpData_fdTwelve :
    (candumpData fdTwelve).map List.length = some 24 ∧
      (decodeFrame fdTwelve).map (fun d => d.data.length) = some 12 ∧
      candumpData fdTwelve ≠ (decodeFrame fdTwelve).map Decoded.data :=
  ⟨by decide, by decide,
    fun h => absurd ((candumpData_eq_decoded_iff (by decide)).1 h) (by decide)⟩

end WireTap.Bridge.Console
