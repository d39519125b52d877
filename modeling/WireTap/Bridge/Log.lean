import WireTap.Bridge.Runs

/-! # What the bridge hands to the ingest queue

`CanTcpServer` calls `pg_writer.enqueue` in two places: `run` for every frame it reads from
`can_socks[i]`, with the default direction, and `_tx_can` for every frame it writes, with direction
`"tx"`.  With ingest on and a default direction other than `"tx"`, the direction tells the two
apart, and over every run:

* the rows that are not `"tx"` are `frame_row` of each frame read, in the order read, each with its
  own timestamp;
* the `"tx"` rows are the rows `_tx_can` built for the frames written to the CAN sockets, one per
  write and in the order written (`run_logs_every_frame`).

So `pg_writer.enqueue` is handed every frame the bridge reads or writes, once, and no other row.
-/

namespace WireTap.Bridge.Log

open WireTap.ByteString WireTap.Can.Kernel WireTap.Gvret.Session WireTap.Ingest.Enqueue
open WireTap.Bridge.Server WireTap.Bridge.Runs

/-- The rows `run` enqueues for the frames the events `evs` make it read: `frame_row` of each frame
decoded, with the frame's timestamp, in order. -/
def rxRowsOf (cfg : ServerConfig) : List (Nat × Event) → List Row
  | [] => []
  | (_, .canReady i frames) :: evs =>
    (if i < cfg.nSocks then
      (framesRead frames).filterMap fun f => (decodeFrame f.2).map (frameRow cfg i f.1)
    else []) ++ rxRowsOf cfg evs
  | _ :: evs => rxRowsOf cfg evs

theorem rxRowsOf_cons (cfg : ServerConfig) (x : Nat × Event) (evs : List (Nat × Event)) :
    rxRowsOf cfg (x :: evs) = rxRowsOf cfg [x] ++ rxRowsOf cfg evs := by
  obtain ⟨now, ev⟩ := x
  cases ev <;> simp [rxRowsOf]

/-- A row of direction `"tx"`. -/
def isTx (r : Row) : Bool := r.dir == "tx"

theorem isTx_frameRow {cfg : ServerConfig} (hdir : cfg.defaultDir ≠ "tx") (i ts : Nat) (d : Decoded) :
    isTx (frameRow cfg i ts d) = false := by
  simp only [isTx, frameRow, enqueueRow, dirOr, ite_self, beq_eq_false_iff_ne, ne_eq, hdir,
    not_false_eq_true]

theorem isTx_txCan {cfg : ServerConfig} {ts bus canId : Nat} {data : Bytes} {isFd : Bool}
    {w : TxWrite} (h : txCan cfg ts bus canId data isFd = some w) : isTx w.row = true := by
  dsimp only [txCan] at h
  split_ifs at h <;> cases h <;> rfl

/-! ## The log relation -/

/-- **`b'` has logged `rx` and its own writes**: after `b`'s rows, `b'` has enqueued rows whose
`"tx"` ones are the rows of the writes `ws` made to the CAN sockets after `b`'s, in order, each as
`_tx_can` built it, and whose other ones are `rx`. -/
def Logs (cfg : ServerConfig) (b : Bridge) (rx : List Row) (b' : Bridge) : Prop :=
  ∃ (rows : List Row) (ws : List TxWrite), b'.enqueued = b.enqueued ++ rows ∧
    b'.canWrites = b.canWrites ++ ws.map (fun w => (w.sockIdx, w.frame)) ∧
    rows.filter (fun r => !isTx r) = rx ∧ rows.filter isTx = ws.map (·.row) ∧
    ∀ w ∈ ws, ∃ ts bus canId data, txCan cfg ts bus canId data false = some w

section

variable {cfg : ServerConfig} {b₁ b₂ b₃ : Bridge}

theorem Logs.of_eq (he : b₂.enqueued = b₁.enqueued) (hw : b₂.canWrites = b₁.canWrites) :
    Logs cfg b₁ [] b₂ :=
  ⟨[], [], by rw [he, List.append_nil], by rw [hw, List.map_nil, List.append_nil], rfl, rfl,
    fun _ h => absurd h (List.not_mem_nil _)⟩

theorem Logs.trans {rx₁ rx₂ : List Row} :
    Logs cfg b₁ rx₁ b₂ → Logs cfg b₂ rx₂ b₃ → Logs cfg b₁ (rx₁ ++ rx₂) b₃
  | ⟨rows, ws, he, hw, hrx, htx, hp⟩, ⟨rows', ws', he', hw', hrx', htx', hp'⟩ =>
    ⟨rows ++ rows', ws ++ ws', by rw [he', he, List.append_assoc],
      by rw [hw', hw, List.map_append, List.append_assoc],
      by rw [List.filter_append, hrx, hrx'], by rw [List.filter_append, htx, htx', List.map_append],
      fun w hm => (List.mem_append.1 hm).elim (hp w) (hp' w)⟩

end

/-! ## One event -/

section

variable {cfg : ServerConfig} (hpg : cfg.pgEnabled = true) (hdir : cfg.defaultDir ≠ "tx")
include hpg

theorem logs_applyCall (now : Nat) (raises : Nat → Call → Bool) (b : Bridge) (kc : Nat × Call) :
    Logs cfg b [] (applyCall cfg now raises b kc) := by
  unfold applyCall
  split
  · split
    · next w hw =>
      split_ifs
      · exact .of_eq rfl rfl
      · have htx := isTx_txCan hw
        exact ⟨[w.row], [w], by simp only [hpg, if_true], rfl, by simp [htx], by simp [htx],
          fun w' hm => ⟨_, _, _, _, (List.mem_singleton.1 hm).symm ▸ hw⟩⟩
    · exact .of_eq rfl rfl
  · exact .of_eq rfl rfl

theorem logs_foldl_applyCall (now : Nat) (raises : Nat → Call → Bool) :
    ∀ (made : List (Nat × Call)) (b : Bridge),
      Logs cfg b [] (made.foldl (applyCall cfg now raises) b)
  | [], _ => .of_eq rfl rfl
  | kc :: made, b =>
    (logs_applyCall hpg now raises b kc).trans (logs_foldl_applyCall now raises made _)

theorem logs_clientRecv (now : Nat) (b : Bridge) (conn : Nat) (r : Recv) (canFails : Nat → Bool) :
    Logs cfg b [] (clientRecv cfg now b conn r canFails) := by
  obtain ⟨made, hw, he⟩ := clientRecv_shared cfg now b conn r canFails
  exact (logs_foldl_applyCall hpg now _ made b).trans (.of_eq he hw)

include hdir

theorem logs_onFrame {i now : Nat} {b b' : Bridge} {tf : Nat × Bytes}
    (h : onFrame cfg i now b tf = .ok b') :
    ∃ d, decodeFrame tf.2 = some d ∧ Logs cfg b [frameRow cfg i tf.1 d] b' := by
  unfold onFrame at h
  cases hd : decodeFrame tf.2 with
  | none => rw [hd] at h; cases h
  | some d =>
    simp only [hd, hpg, if_true, fanOut_eq, Except.ok.injEq] at h
    subst h
    have hrx := isTx_frameRow hdir i tf.1 d
    exact ⟨d, rfl, [frameRow cfg i tf.1 d], [], rfl, by simp, by simp [hrx], by simp [hrx],
      fun _ h => absurd h (List.not_mem_nil _)⟩

theorem logs_onFrames {i now : Nat} :
    ∀ {b b' : Bridge} {frames : List (Nat × Bytes)}, onFrames cfg i now b frames = .ok b' →
      Logs cfg b ((framesRead frames).filterMap fun f => (decodeFrame f.2).map (frameRow cfg i f.1)) b'
  | b, b', [], h => by cases h; exact .of_eq rfl rfl
  | b, b', f :: fs, h => by
    unfold onFrames at h
    by_cases hf : f.2.isEmpty
    · rw [if_pos hf] at h
      cases h
      simpa [framesRead, hf] using (Logs.of_eq rfl rfl : Logs cfg b [] b)
    · rw [if_neg hf] at h
      cases h₁ : onFrame cfg i now b f with
      | error _ => rw [h₁] at h; cases h
      | ok b₁ =>
        rw [h₁] at h
        obtain ⟨d, hd, hl⟩ := logs_onFrame hpg hdir h₁
        simpa [framesRead, hf, hd, List.filterMap_cons] using hl.trans (logs_onFrames h)

/-- **One event** logs the frames it makes `run` read and the frames it writes, and nothing else. -/
theorem logs_runStep {b b' : Bridge} {now : Nat} {ev : Event} (h : runStep cfg b now ev = .ok b') :
    Logs cfg b (rxRowsOf cfg [(now, ev)]) b' := by
  cases ev with
  | accept acceptOk peerOk =>
    simp only [runStep, accept] at h
    split_ifs at h
    cases h; exact .of_eq rfl rfl
  | canReady i frames =>
    simp only [runStep] at h
    split_ifs at h with hi
    · simpa [rxRowsOf, hi] using logs_onFrames hpg hdir h
    · cases h; simpa [rxRowsOf, hi] using (Logs.of_eq rfl rfl : Logs cfg b [] b)
  | clientRecv conn r canFails => cases h; exact logs_clientRecv hpg now b conn r canFails
  | peerReset conn => cases h; exact .of_eq rfl rfl

end

/-! ## Whole runs -/

theorem logs_run (cfg : ServerConfig) (hpg : cfg.pgEnabled = true) (hdir : cfg.defaultDir ≠ "tx")
    {b b' : Bridge} {evs : List (Nat × Event)} (h : run cfg b evs = .ok b') :
    Logs cfg b (rxRowsOf cfg evs) b' := by
  induction evs generalizing b with
  | nil => cases h; exact .of_eq rfl rfl
  | cons ev evs ih =>
    obtain ⟨b₁, hs, h⟩ := run_cons_ok h
    rw [rxRowsOf_cons]
    exact (logs_runStep hpg hdir hs).trans (ih h)

/-- A client asks for a frame on bus 0, then a frame arrives on bus 0. -/
def buildThenRead : List (Nat × Event) := buildFrame ++ [(2, .canReady 0 [(2, frameAA)])]

end WireTap.Bridge.Log
