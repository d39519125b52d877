import WireTap.Bridge.Server

/-! # Ingest rows describe the wire

Three code paths each recompute a frame's DLC and payload: `run`'s decoder (`len_to_dlc` for FD),
`enqueue` (`dlc_to_len` for FD, `min(dlc, 8)` for classic) and `_tx_can`'s `struct` layouts.
`rows_describe_frames` says they agree: the row enqueued for a frame `run` reads, and the row
`_tx_can` enqueues for a frame it writes, carry the extended flag, arbitration id, DLC and
payload that `run`'s decoder reads from the kernel frame; for a frame `run` reads, the push to
the clients is built from the same four fields. -/

namespace WireTap.Bridge.Rows

open WireTap.ByteString WireTap.Can.Id WireTap.Can.Dlc WireTap.Can.Kernel WireTap.Gvret.Push
open WireTap.Ingest.Enqueue WireTap.Bridge.Server

/-- A frame as the kernel hands it to `run`: a 16-byte classic frame with a DLC of at most 8, or a
72-byte FD frame whose length byte is a valid FD length. -/
def KernelFrame (frame : Bytes) : Prop :=
  (frame.length = 16 ∧ (frame.getD 4 0).toNat ≤ 8) ∨
    (frame.length = 72 ∧ ValidFdLen (frame.getD 4 0).toNat)

instance (frame : Bytes) : Decidable (KernelFrame frame) := inferInstanceAs (Decidable (_ ∨ _))

/-- A row describes a decoded frame: same extended flag, arbitration id, DLC and payload. -/
def Describes (r : Row) (d : Decoded) : Prop :=
  r.extended = extendedOf d.canId ∧ r.arbId = arbIdOf d.canId ∧ r.dlc = d.dlc ∧ r.data = d.data

/-- The push built from a row's fields, at clock reading `e` and on bus `bus`. -/
def pushOfRow (e bus : Nat) (r : Row) : Bytes :=
  [0xF1, 0x00] ++ toBytesLE 4 (e &&& 0xFFFFFFFF) ++ toBytesLE 4 (withEff r.arbId r.extended) ++
    [UInt8.ofNat (busAndDlc bus r.dlc)] ++ r.data ++ [0x00]

theorem length_slice (b : Bytes) (i j : Nat) : (slice b i j).length = min (j - i) (b.length - i) := by
  simp [ByteString.slice]

theorem decodeFrame_classic {frame : Bytes} (hl : frame.length = 16) :
    decodeFrame frame = some ⟨fromBytesLE (frame.take 4), (frame.getD 4 0).toNat,
      slice frame 8 (8 + min (frame.getD 4 0).toNat 8), false⟩ := by
  unfold decodeFrame
  rw [if_neg (by omega), if_neg (by omega)]

theorem decodeFrame_fd {frame : Bytes} (hl : frame.length = 72) :
    decodeFrame frame = some ⟨fromBytesLE (frame.take 4), lenToDlc (frame.getD 4 0).toNat,
      slice frame 8 (8 + (frame.getD 4 0).toNat), true⟩ := by
  unfold decodeFrame
  rw [if_pos hl]

theorem decodeFrame_of_kernelFrame {frame : Bytes} (h : KernelFrame frame) :
    ∃ d, decodeFrame frame = some d ∧
      ((d.isFd = false ∧ d.data.length = d.dlc ∧ d.dlc ≤ 8) ∨
        (d.isFd = true ∧ ValidFdLen d.data.length ∧ d.dlc = lenToDlc d.data.length)) := by
  rcases h with ⟨hl, hd⟩ | ⟨hl, hv⟩
  · refine ⟨_, decodeFrame_classic hl, Or.inl ⟨rfl, ?_, hd⟩⟩
    simp only [length_slice, hl]; omega
  · have h64 : (frame.getD 4 0).toNat ≤ 64 := by
      rcases hv with hv | hv
      · omega
      · simp only [List.mem_cons, List.mem_singleton, List.not_mem_nil, or_false] at hv; omega
    have hlen : (slice frame 8 (8 + (frame.getD 4 0).toNat)).length = (frame.getD 4 0).toNat := by
      simp only [length_slice, hl]; omega
    exact ⟨_, decodeFrame_fd hl, Or.inr ⟨rfl, by dsimp only; rw [hlen]; exact hv, by dsimp only; rw [hlen]⟩⟩

theorem frameRow_describes (cfg : ServerConfig) (i ts : Nat) {d : Decoded}
    (h : (d.isFd = false ∧ d.data.length = d.dlc ∧ d.dlc ≤ 8) ∨
      (d.isFd = true ∧ ValidFdLen d.data.length ∧ d.dlc = lenToDlc d.data.length)) :
    Describes (frameRow cfg i ts d) d := by
  refine ⟨rfl, rfl, rfl, ?_⟩
  simp only [frameRow, enqueueRow, rowLen]
  rcases h with ⟨hf, hl, hd⟩ | ⟨hf, hv, hd⟩
  · rw [hf, if_neg Bool.false_ne_true]
    exact List.take_of_length_le (by omega)
  · rw [hf, if_pos rfl, hd, dlcToLen_lenToDlc hv, List.take_length]

theorem pushMsg_eq_pushOfRow (cfg : ServerConfig) (i ts e bus : Nat) {d : Decoded}
    (h : (d.isFd = false ∧ d.data.length = d.dlc ∧ d.dlc ≤ 8) ∨
      (d.isFd = true ∧ ValidFdLen d.data.length ∧ d.dlc = lenToDlc d.data.length)) :
    pushMsg e d.canId bus d.data d.isFd = pushOfRow e bus (frameRow cfg i ts d) := by
  obtain ⟨hx, ha, hd, hdata⟩ := frameRow_describes cfg i ts h
  have hlen : pushLen d.data d.isFd = d.data.length := by
    rcases h with ⟨hf, hl, hd⟩ | ⟨hf, hv, -⟩
    · simp only [pushLen, hf]; simp; omega
    · have : d.data.length ≤ 64 := by
        rcases hv with hv | hv
        · omega
        · simp only [List.mem_cons, List.mem_singleton, List.not_mem_nil, or_false] at hv; omega
      simp only [pushLen, hf]; simp; omega
  have hdlc : pushDlc d.data d.isFd = d.dlc := by
    rcases h with ⟨hf, hl, -⟩ | ⟨hf, -, hd⟩
    · rw [pushDlc, hlen, hf, hl]; rfl
    · rw [pushDlc, hlen, hf, hd]; rfl
  simp only [pushMsg, pushOfRow, hx, ha, hd, hdata, hdlc, hlen, List.take_length]

theorem foldl_drop_enqueued (dead : List Nat) (b : Bridge) :
    (dead.foldl drop b).enqueued = b.enqueued := by
  induction dead generalizing b with
  | nil => rfl
  | cons c cs ih => exact ih (drop b c)

theorem fanOut_enqueued (b : Bridge) (now canId bus : Nat) (data : Bytes) (isFd : Bool) :
    (fanOut b now canId bus data isFd).enqueued = b.enqueued :=
  foldl_drop_enqueued _ _

theorem txCan_describes (cfg : ServerConfig) {ts bus canId : Nat} {data : Bytes} {isFd : Bool}
    {w : TxWrite} (hid : canId < 2 ^ 32) (h : txCan cfg ts bus canId data isFd = some w) :
    ∃ d, decodeFrame w.frame = some d ∧ Describes w.row d := by
  dsimp only [txCan] at h
  split_ifs at h with hr hfd
  · cases h
    refine ⟨_, decodeFrame_packFd hid data, rfl, rfl, rfl, ?_⟩
    have hle := le_dlcToLen_lenToDlc (show min data.length 64 ≤ 64 by omega)
    simp only [enqueueRow, rowLen, ↓reduceIte, List.take_take]
    congr 1; omega
  · cases h
    refine ⟨_, decodeFrame_packClassic hid data, rfl, rfl, rfl, ?_⟩
    simp only [enqueueRow, rowLen, Bool.false_eq_true, if_false, List.take_take]
    congr 1; omega

/-- **Ingest rows describe the frame on the wire.**  For a kernel frame `run` reads from
`can_socks[i]`, `run` decodes it and enqueues one row with the decoded extended flag,
arbitration id, DLC and payload, and every push of it is built from those fields.  For a frame
`_tx_can` writes (any 32-bit id, any payload, classic or FD), the row it enqueues has the fields
`run`'s decoder reads back from the written frame. -/
theorem rows_describe_frames (cfg : ServerConfig) :
    (∀ (i now ts : Nat) (b : Bridge) (frame : Bytes), KernelFrame frame → cfg.pgEnabled = true →
      ∃ d r b', decodeFrame frame = some d ∧ onFrame cfg i now b (ts, frame) = .ok b' ∧
        b'.enqueued = b.enqueued ++ [r] ∧ Describes r d ∧
        ∀ e bus, pushMsg e d.canId bus d.data d.isFd = pushOfRow e bus r) ∧
    (∀ (ts bus canId : Nat) (data : Bytes) (isFd : Bool) (w : TxWrite), canId < 2 ^ 32 →
      txCan cfg ts bus canId data isFd = some w →
        ∃ d, decodeFrame w.frame = some d ∧ Describes w.row d) := by
  refine ⟨fun i now ts b frame hk hpg => ?_, fun _ _ _ _ _ _ hid h => txCan_describes cfg hid h⟩
  obtain ⟨d, hd, hshape⟩ := decodeFrame_of_kernelFrame hk
  have hon : onFrame cfg i now b (ts, frame) =
      .ok { fanOut b now d.canId (cfg.busOffset + i) d.data d.isFd with
        enqueued := (fanOut b now d.canId (cfg.busOffset + i) d.data d.isFd).enqueued ++
          [frameRow cfg i ts d] } := by
    simp only [onFrame, hd, hpg, if_true]
  exact ⟨d, _, _, hd, hon, by rw [fanOut_enqueued], frameRow_describes cfg i ts hshape,
    fun e bus => pushMsg_eq_pushOfRow cfg i ts e bus hshape⟩

/-- The classic frame `0x123 [AA BB CC]` read on the only interface, and the same
frame written by `_tx_can` to bus 0. -/
theorem rows_describe_frames_scenario :
    KernelFrame [0x23, 1, 0, 0, 3, 0, 0, 0, 0xAA, 0xBB, 0xCC, 0, 0, 0, 0, 0] ∧
    (∃ d r b', decodeFrame [0x23, 1, 0, 0, 3, 0, 0, 0, 0xAA, 0xBB, 0xCC, 0, 0, 0, 0, 0] = some d ∧
      onFrame oneBus 0 0 Bridge.init (0, [0x23, 1, 0, 0, 3, 0, 0, 0, 0xAA, 0xBB, 0xCC, 0, 0, 0, 0, 0]) =
        .ok b' ∧ b'.enqueued = Bridge.init.enqueued ++ [r] ∧ Describes r d ∧
      ∀ e bus, pushMsg e d.canId bus d.data d.isFd = pushOfRow e bus r) ∧
    0x123 < 2 ^ 32 ∧
    ∃ w, txCan oneBus 0 0 0x123 [0xAA, 0xBB, 0xCC] false = some w ∧
      ∃ d, decodeFrame w.frame = some d ∧ Describes w.row d :=
  have hk : KernelFrame [0x23, 1, 0, 0, 3, 0, 0, 0, 0xAA, 0xBB, 0xCC, 0, 0, 0, 0, 0] := by decide
  have hid : 0x123 < 2 ^ 32 := by decide
  ⟨hk, (rows_describe_frames oneBus).1 0 0 0 Bridge.init _ hk rfl, hid, _, rfl,
    (rows_describe_frames oneBus).2 0 0 0x123 [0xAA, 0xBB, 0xCC] false _ hid rfl⟩

end WireTap.Bridge.Rows
