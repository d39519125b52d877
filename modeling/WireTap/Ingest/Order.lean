import WireTap.Ingest.Conservation

/-! # The order of commits

While the worker runs, a row on its way to the SQL store is in the spill store or in the queue
(`pending`): the spill store first, since priority 1 drains it before priority 2 takes from the
queue, and both oldest first.  Every operation of a pass in which no call raises moves rows forward
along that line without reordering them: `_maybe_flush_queue_overflow` and the handler append the
queue to the spill store, priority 2 commits the head of the queue when the spill store is empty,
and priority 1 commits the oldest rows of the spill store and deletes exactly those
(`readBatch_append_deleteBatch`).  Spill writes that fail and the reset of the store only drop
rows.  `_shutdown_flush` commits the queue ahead of the spill store, but the worker commits nothing
after it.

* `InOrder w src w'`: `w'` committed the rows `new`, and `new` followed by what `w'` has pending is
  a sublist of what `w` had pending followed by the rows `src` handed to `enqueue`;
* every step of a session with no raising call keeps it (`step_inOrder`), so such a session commits
  the spill file's rows and then the enqueued rows in the order they came, each at most as often as
  it came (`session_commits_in_order`).

Any raising call breaks this: the handler writes back to the spill store a batch already
committed or still in it, which is committed again later.
-/

namespace WireTap.Ingest.Order

open WireTap.Ingest.Enqueue WireTap.Ingest.Spill WireTap.Ingest.Worker WireTap.Ingest.Conservation
open scoped List

/-! ## A read and its delete -/

theorem filter_not_mem_take {rows : List (Nat × Row)} (h : (rows.map Prod.fst).Nodup) (k : Nat) :
    rows.filter (fun p => p.1 ∉ (rows.take k).map Prod.fst) = rows.drop k := by
  induction rows generalizing k with
  | nil => simp
  | cons p rows ih =>
    rw [List.map_cons, List.nodup_cons] at h
    cases k with
    | zero => simp
    | succ k =>
      rw [List.take_succ_cons, List.drop_succ_cons, List.map_cons,
        List.filter_cons_of_neg (by simp), ← ih h.2 k]
      refine List.filter_congr fun q hq => ?_
      have hne : q.1 ≠ p.1 := fun he => h.1 (he ▸ List.mem_map_of_mem _ hq)
      simp [hne]

/-- **A read and the delete of its ids split the table**: `read_batch` returns its oldest rows, and
`delete_batch` with their ids leaves exactly the others. -/
theorem readBatch_append_deleteBatch (limit : Int) (c : DiskCache) :
    (readBatch limit c).2 ++ (deleteBatch (readBatch limit c).1 c).rows = c.rows := by
  obtain ⟨k, hk⟩ : ∃ k, limitRows limit c.file.rows = c.file.rows.take k := by
    unfold limitRows
    split_ifs
    · exact ⟨c.file.rows.length, (List.take_length _).symm⟩
    · exact ⟨_, rfl⟩
  simp only [readBatch, deleteBatch, DiskCache.rows, hk, filter_not_mem_take c.file.nodup,
    ← List.map_append, List.take_append_drop]

/-! ## Pending rows -/

/-- **The rows on their way to the SQL store** while the worker runs: the spill store's, oldest
first, then the queue's.  Once the worker has left its loop it commits nothing more. -/
def pending (w : Writer) : List Row := if w.running then w.cache.rows ++ rowsOf w.q else []

/-- `w'` committed what `w` had, then `new`; and `new` followed by what `w'` has pending is a
sublist of what `w` had pending followed by `src`. -/
def InOrder (w : Writer) (src : List Row) (w' : Writer) : Prop :=
  ∃ new, w'.committed = w.committed ++ new ∧ new ++ pending w' <+ pending w ++ src

section InOrder

variable {w w' w₁ w₂ w₃ : Writer} {a b : List Row}

theorem InOrder.of_pending (hc : w'.committed = w.committed) (hp : pending w' <+ pending w) :
    InOrder w [] w' :=
  ⟨[], by rw [hc, List.append_nil], by rw [List.append_nil]; exact hp⟩

theorem InOrder.refl (w : Writer) : InOrder w [] w := .of_pending rfl (List.Sublist.refl _)

theorem InOrder.trans : InOrder w₁ a w₂ → InOrder w₂ b w₃ → InOrder w₁ (a ++ b) w₃
  | ⟨n₁, hc₁, hs₁⟩, ⟨n₂, hc₂, hs₂⟩ =>
    ⟨n₁ ++ n₂, by rw [hc₂, hc₁, List.append_assoc], by
      calc n₁ ++ n₂ ++ pending w₃ = n₁ ++ (n₂ ++ pending w₃) := List.append_assoc _ _ _
        _ <+ n₁ ++ (pending w₂ ++ b) := hs₂.append_left n₁
        _ = n₁ ++ pending w₂ ++ b := (List.append_assoc _ _ _).symm
        _ <+ pending w₁ ++ a ++ b := hs₁.append_right b
        _ = pending w₁ ++ (a ++ b) := List.append_assoc _ _ _⟩

end InOrder

/-! ## Spill writes -/

theorem writeToCache_spill (s : Bool) (rows : List Row) (w : Writer) :
    (writeToCache s rows w).cache.rows <+ w.cache.rows ++ rows ∧ (writeToCache s rows w).q = w.q ∧
      (writeToCache s rows w).running = w.running := by
  unfold writeToCache
  split_ifs
  · exact ⟨by rw [rows_writeBatch], rfl, rfl⟩
  · exact ⟨List.sublist_append_left _ _, rfl, rfl⟩

theorem writeChunks_spill (stored : Nat → Bool) (k : Nat) (cs : List (List Row)) (w : Writer) :
    (writeChunks stored k cs w).cache.rows <+ w.cache.rows ++ cs.flatten ∧
      (writeChunks stored k cs w).q = w.q ∧ (writeChunks stored k cs w).running = w.running := by
  induction cs generalizing k w with
  | nil => exact ⟨by rw [List.flatten_nil, List.append_nil]; exact List.Sublist.refl _, rfl, rfl⟩
  | cons c cs ih =>
    obtain ⟨hs, hq, hr⟩ := writeToCache_spill (stored k) c w
    obtain ⟨hs', hq', hr'⟩ := ih (k + 1) (writeToCache (stored k) c w)
    refine ⟨?_, hq'.trans hq, hr'.trans hr⟩
    rw [List.flatten_cons, ← List.append_assoc]
    exact hs'.trans (hs.append_right _)

theorem pending_drainQueueToCache (cfg : Config) (stored : Nat → Bool) (w : Writer) :
    pending (drainQueueToCache cfg stored w) <+ pending w ∧
      (drainQueueToCache cfg stored w).running = w.running := by
  obtain ⟨hs, hq, hr⟩ := writeChunks_spill stored 0 (drainChunks cfg.batchSize [] w.q) { w with q := [] }
  rw [flatten_drainChunks, List.nil_append] at hs
  refine ⟨?_, hr⟩
  unfold pending drainQueueToCache
  rw [hq, hr]
  split_ifs
  · rw [rowsOf_nil, List.append_nil]; exact hs
  · exact List.Sublist.refl _

theorem inOrder_drainQueueToCache (cfg : Config) (stored : Nat → Bool) (w : Writer) :
    InOrder w [] (drainQueueToCache cfg stored w) :=
  .of_pending (drainQueueToCache_fields cfg stored w).2.1 (pending_drainQueueToCache cfg stored w).1

theorem inOrder_maybeFlushQueueOverflow (cfg : Config) (stored : Nat → Bool) (w : Writer) :
    InOrder w [] (maybeFlushQueueOverflow cfg stored w) ∧
      (maybeFlushQueueOverflow cfg stored w).running = w.running := by
  unfold maybeFlushQueueOverflow
  split_ifs
  · exact ⟨inOrder_drainQueueToCache cfg stored w, (pending_drainQueueToCache cfg stored w).2⟩
  · exact ⟨.refl w, rfl⟩

/-! ## A pass with no raising call -/

section NoRaise

variable (cfg : Config)

theorem queueBatch_noRaise (w : Writer) :
    queueBatch cfg (fun _ => false) w =
      .ok { w with q := (takeBatch cfg w.q).2, batch := (takeBatch cfg w.q).1,
                   committed := w.committed ++ (takeBatch cfg w.q).1,
                   countWritten := w.countWritten + (takeBatch cfg w.q).1.length } := by
  simp only [queueBatch, Bool.false_or, Bool.false_eq_true, if_false]
  split_ifs with he
  · rw [List.isEmpty_iff.1 he, List.append_nil, List.length_nil, Nat.add_zero]
  · rfl

theorem cacheBatch_noRaise (w : Writer) :
    cacheBatch cfg (fun _ => false) w =
      if (readBatch cfg.batchSize w.cache).2 = [] then
        queueBatch cfg (fun _ => false) (resetCache { w with draining := true, batch := [] })
      else .ok { w with
        draining := true, batch := (readBatch cfg.batchSize w.cache).2,
        committed := w.committed ++ (readBatch cfg.batchSize w.cache).2,
        cache := deleteBatch (readBatch cfg.batchSize w.cache).1 w.cache,
        countWritten := w.countWritten + (readBatch cfg.batchSize w.cache).2.length } := by
  simp only [cacheBatch, Bool.false_or, Bool.false_eq_true, if_false, List.isEmpty_iff]
  split_ifs with h
  · rw [h]
  · rfl

theorem tryBlock_noRaise (w : Writer) :
    tryBlock cfg (fun _ => false) w =
      if isEmpty w.cache then queueBatch cfg (fun _ => false) { w with conn := true }
      else cacheBatch cfg (fun _ => false) { w with conn := true } := by
  simp only [tryBlock, Bool.and_false, Bool.false_eq_true, if_false]

theorem tryBlock_ok (w : Writer) : ∃ w', tryBlock cfg (fun _ => false) w = .ok w' := by
  rw [tryBlock_noRaise]
  split_ifs
  · exact ⟨_, queueBatch_noRaise cfg _⟩
  · rw [cacheBatch_noRaise]
    split_ifs
    · exact ⟨_, queueBatch_noRaise cfg _⟩
    · exact ⟨_, rfl⟩

theorem workerPass_noRaise {env : PassEnv} (hraise : env.raises = fun _ => false) (w : Writer) :
    workerPass cfg env w =
      settled (tryBlock cfg (fun _ => false) (maybeFlushQueueOverflow cfg env.overflowStored w)) := by
  obtain ⟨w', h⟩ := tryBlock_ok cfg (maybeFlushQueueOverflow cfg env.overflowStored w)
  unfold workerPass
  rw [hraise, h]
  rfl

theorem queueBatch_inOrder {w : Writer} (hr : w.running = true) (hc : w.cache.rows = []) :
    InOrder w [] (settled (queueBatch cfg (fun _ => false) w)) := by
  rw [queueBatch_noRaise]
  refine ⟨_, rfl, ?_⟩
  simp only [settled, pending, hr, if_true, hc, List.nil_append, List.append_nil]
  rw [takeBatch_partition]

theorem cacheBatch_inOrder {w : Writer} (hr : w.running = true) :
    InOrder w [] (settled (cacheBatch cfg (fun _ => false) w)) := by
  rw [cacheBatch_noRaise]
  split_ifs
  · refine (InOrder.of_pending (by rfl) ?_).trans
      (queueBatch_inOrder cfg (w := resetCache { w with draining := true, batch := [] }) hr rfl)
    simp only [pending, hr, if_true, resetCache, rows_open, rows_empty, List.map_nil, List.nil_append]
    exact List.sublist_append_right _ _
  · refine ⟨_, rfl, ?_⟩
    simp only [settled, pending, hr, if_true, List.append_nil, ← List.append_assoc,
      readBatch_append_deleteBatch]
    exact List.Sublist.refl _

theorem tryBlock_inOrder {w : Writer} (hr : w.running = true) :
    InOrder w [] (settled (tryBlock cfg (fun _ => false) w)) := by
  rw [tryBlock_noRaise]
  split_ifs with he
  · exact queueBatch_inOrder cfg (w := { w with conn := true }) hr ((isEmpty_iff _).1 he)
  · exact cacheBatch_inOrder cfg (w := { w with conn := true }) hr

/-- **A pass in which no call raises** commits the oldest pending rows and keeps the rest in order. -/
theorem workerPass_inOrder {env : PassEnv} (hraise : env.raises = fun _ => false) {w : Writer}
    (hr : w.running = true) : InOrder w [] (workerPass cfg env w) := by
  obtain ⟨h₁, hr₁⟩ := inOrder_maybeFlushQueueOverflow cfg env.overflowStored w
  rw [workerPass_noRaise cfg hraise]
  exact h₁.trans (tryBlock_inOrder cfg (hr₁.trans hr))

end NoRaise

/-! ## Sessions -/

theorem shutdownFlush_inOrder (fails stored : Bool) {w : Writer} (hr : w.running = true) :
    InOrder w [] (shutdownFlush fails stored w) := by
  have hp : pending w = w.cache.rows ++ rowsOf w.q := if_pos hr
  unfold shutdownFlush
  dsimp only
  split_ifs
  · exact .of_pending rfl (List.nil_sublist _)
  · exact ⟨_, rfl, by rw [hp]; exact (List.sublist_append_right _ _).append_right _⟩
  · refine .of_pending (committed_writeToCache _ _ _) ?_
    simp only [pending, close, (writeToCache_spill _ _ _).2.2, Bool.false_eq_true, if_false]
    exact List.nil_sublist _

theorem closeEnd_inOrder (cfg : Config) (stored : Nat → Bool) (w : Writer) :
    InOrder w [] (closeEnd cfg stored w) := by
  unfold closeEnd emergencyFlushToDisk
  split_ifs
  · exact .refl w
  · exact inOrder_drainQueueToCache cfg stored w

/-- No call of the pass raises; `_shutdown_flush`, `enqueue` and `close` may do anything. -/
def NoRaise : Event → Prop
  | .pass env => env.raises = fun _ => false
  | _ => True

/-- **One step with no raising call** keeps the order of the pending rows. -/
theorem step_inOrder (cfg : Config) (w : Writer) {e : Event} (he : NoRaise e) :
    InOrder w (enqueued [e]) (step cfg w e) := by
  cases e with
  | enqueue r =>
    show InOrder w [r] (enqueue cfg r w)
    unfold enqueue
    split_ifs
    · exact ⟨[], (List.append_nil _).symm, by rw [List.nil_append]; exact List.sublist_append_left _ _⟩
    · refine ⟨[], (List.append_nil _).symm, ?_⟩
      unfold pending
      split_ifs
      · simp only [List.nil_append, rowsOf_append, rowsOf_cons, rows_row, rowsOf_nil, List.append_nil,
          List.append_assoc]
        exact List.Sublist.refl _
      · exact List.nil_sublist _
  | pass env =>
    simp only [step]
    split_ifs with hra
    · exact workerPass_inOrder cfg he (Bool.and_eq_true _ _ ▸ hra).1
    · exact .refl w
  | shutdown fails stored =>
    simp only [step]
    split_ifs with hra
    · exact shutdownFlush_inOrder fails stored (Bool.and_eq_true _ _ ▸ hra).1
    · exact .refl w
  | closeBegin =>
    show InOrder w [] (closeBegin cfg w)
    unfold closeBegin
    split_ifs
    · exact .of_pending rfl (List.Sublist.refl _)
    · refine .of_pending rfl ?_
      simp only [pending, rowsOf_append, rowsOf_cons, rows_wake, rowsOf_nil, List.append_nil]
      exact List.Sublist.refl _
  | closeEnd stored =>
    simp only [step]
    split_ifs
    · exact .refl w
    · exact closeEnd_inOrder cfg stored w

theorem run_inOrder (cfg : Config) (w : Writer) {events : List Event}
    (h : ∀ e ∈ events, NoRaise e) : InOrder w (enqueued events) (run cfg w events) := by
  induction events generalizing w with
  | nil => exact .refl w
  | cons e es ih =>
    rw [enqueued_cons]
    exact (step_inOrder cfg w (h e (List.mem_cons_self _ _))).trans
      (ih (step cfg w e) fun e' he' => h e' (List.mem_cons_of_mem _ he'))

/-- **Without raising calls, rows are committed in order and at most once.**  In every session in
which no call of the worker's `try` block raises (spill writes may still fail or find the store
full, and `_shutdown_flush` may fail), the rows appended to the SQL store are a sublist of the
spill file's rows followed by the rows handed to `enqueue`: they are committed in the order they
came, and none more often than it came. -/
theorem session_commits_in_order (cfg : Config) (file : SpillFile) (committed : List Row)
    {events : List Event} (h : ∀ e ∈ events, NoRaise e) :
    ∃ new, (run cfg (Writer.init file committed) events).committed = committed ++ new ∧
      new <+ file.rows.map Prod.snd ++ enqueued events := by
  obtain ⟨new, hc, hs⟩ := run_inOrder cfg (Writer.init file committed) h
  exact ⟨new, hc, (List.sublist_append_left _ _).trans
    (by simpa [pending, Writer.init, rowsOf] using hs)⟩

/-- A queue of `maxsize` 2 fills, overflows to the spill store and is drained from it, twice. -/
def overflowSession : List Event :=
  [.enqueue (probeRow 0 0xAA), .enqueue (probeRow 1 0xBB), .pass .ok, .enqueue (probeRow 2 0xCC),
    .pass .ok]

theorem session_commits_in_order_overflow :
    (∀ e ∈ overflowSession, NoRaise e) ∧
      ∃ new, (run ⟨500, 2, 50⟩ (Writer.init SpillFile.empty []) overflowSession).committed = [] ++ new ∧
        new <+ SpillFile.empty.rows.map Prod.snd ++ enqueued overflowSession :=
  have h : ∀ e ∈ overflowSession, NoRaise e := by simp [overflowSession, NoRaise, PassEnv.ok]
  ⟨h, session_commits_in_order ⟨500, 2, 50⟩ SpillFile.empty [] h⟩

end WireTap.Ingest.Order
