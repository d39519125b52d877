import WireTap.Ingest.Order

/-! # Draining while the database is up

When no call of the worker raises and every spill write stores its rows (`PassEnv.ok`), a pass
loses nothing: the rows committed followed by the rows pending stay the same list
(`workerPass_ok`).  It also makes progress.  With a `batch_size` other than `0`, a read of a
spill store that holds rows returns rows, and priority 2 takes at least one item off a queue that
has one, so the work left (`load`: spilled rows and queued items) goes down by at least one in every
pass while there is any.

* after as many passes as there is work, everything that was pending is committed, exactly once
  and in order, and the spill store and the queue are empty (`run_drains_when_db_up`);
* the same holds with a producer calling `enqueue` between the passes, as long as the queue has
  room for every row: what was pending and then every row handed over is committed, in that order
  (`run_commits_everything_fed`);
* no failure stops the worker or closes its spill store (`ready_workerPass`), so after any outage,
  as many passes with the database up as there is work left commit what the outage left spilled
  and queued (`catches_up_after_outage`).
-/

namespace WireTap.Ingest.Progress

open WireTap.Ingest.Enqueue WireTap.Ingest.Spill WireTap.Ingest.Worker WireTap.Ingest.Conservation
open WireTap.Ingest.Order

/-- The work the worker has left: the rows of the spill store and the items of the queue. -/
def load (w : Writer) : Nat := w.cache.rows.length + w.q.length

/-- **A writer whose worker makes passes**: the worker runs, `_alive` is set, and the spill store
is open. -/
structure Ready (w : Writer) : Prop where
  running : w.running = true
  alive : w.alive = true
  cacheOpen : w.cache.closed = false

theorem step_pass (cfg : Config) {w : Writer} (hw : Ready w) (env : PassEnv) :
    step cfg w (.pass env) = workerPass cfg env w := by
  simp only [step, hw.running, hw.alive, Bool.and_self, if_true]

/-! ## The queue -/

theorem length_rowsOf_le (q : List Item) : (rowsOf q).length ≤ q.length := by
  induction q with
  | nil => exact le_rfl
  | cons i q ih =>
    have : i.rows.length ≤ 1 := by cases i <;> simp [Item.rows]
    simp only [rowsOf_cons, List.length_append, List.length_cons]
    omega

theorem length_getMore_le (bs : Int) :
    ∀ (batch : List Row) (items : List Item), (getMore bs batch items).2.length ≤ items.length
  | _, [] => le_rfl
  | batch, item :: items => by
    unfold getMore
    split_ifs
    · exact (length_getMore_le bs _ items).trans (Nat.le_succ _)
    · exact le_rfl

theorem length_takeBatch_lt (cfg : Config) {q : List Item} (hq : q ≠ []) :
    (takeBatch cfg q).2.length < q.length := by
  obtain ⟨i, q, rfl⟩ := List.exists_cons_of_ne_nil hq
  exact Nat.lt_succ_of_le (length_getMore_le _ _ _)

theorem length_takeBatch_le (cfg : Config) (q : List Item) : (takeBatch cfg q).2.length ≤ q.length :=
  (length_getMore_le _ _ _).trans (by cases q <;> simp [getFirst])

/-! ## Spill writes that store -/

theorem writeChunks_stored (k : Nat) (cs : List (List Row)) {w : Writer}
    (hc : w.cache.closed = false) :
    ∃ c, writeChunks (fun _ => true) k cs w = { w with cache := c } ∧
      c.rows = w.cache.rows ++ cs.flatten ∧ c.closed = false := by
  induction cs generalizing k w with
  | nil => exact ⟨w.cache, rfl, by rw [List.flatten_nil, List.append_nil], hc⟩
  | cons c cs ih =>
    have hw : writeToCache true c w = { w with cache := writeBatch c w.cache } := by
      simp only [writeToCache, hc, Bool.not_false, Bool.and_self, if_true]
    obtain ⟨c', h, hr, hcl⟩ := ih (k + 1) (w := { w with cache := writeBatch c w.cache }) hc
    refine ⟨c', ?_, ?_, hcl⟩
    · simp only [writeChunks, hw, h]
    · rw [hr, rows_writeBatch, List.flatten_cons, List.append_assoc]

theorem maybeFlushQueueOverflow_ok (cfg : Config) {w : Writer} (hw : Ready w) :
    Ready (maybeFlushQueueOverflow cfg (fun _ => true) w) ∧
      (maybeFlushQueueOverflow cfg (fun _ => true) w).committed = w.committed ∧
      pending (maybeFlushQueueOverflow cfg (fun _ => true) w) = pending w ∧
      load (maybeFlushQueueOverflow cfg (fun _ => true) w) ≤ load w := by
  unfold maybeFlushQueueOverflow
  split_ifs
  · obtain ⟨c, h, hr, hcl⟩ := writeChunks_stored 0 (drainChunks cfg.batchSize [] w.q)
      (w := { w with q := [] }) hw.cacheOpen
    rw [flatten_drainChunks, List.nil_append] at hr
    unfold drainQueueToCache
    rw [h]
    refine ⟨⟨hw.running, hw.alive, hcl⟩, rfl, ?_, ?_⟩
    · simp only [pending, hw.running, if_true, hr, rowsOf_nil, List.append_nil]
    · have := length_rowsOf_le w.q
      simp only [load, hr, List.length_append, List.length_nil]
      omega
  · exact ⟨hw, rfl, rfl, le_rfl⟩

/-! ## One pass -/

theorem tryBlock_ok_progress (cfg : Config) (hbs : cfg.batchSize ≠ 0) {w : Writer} (hw : Ready w) :
    Ready (settled (tryBlock cfg (fun _ => false) w)) ∧
      (settled (tryBlock cfg (fun _ => false) w)).committed ++
          pending (settled (tryBlock cfg (fun _ => false) w)) = w.committed ++ pending w ∧
      load (settled (tryBlock cfg (fun _ => false) w)) ≤ load w ∧
      (0 < load w → load (settled (tryBlock cfg (fun _ => false) w)) < load w) := by
  rw [tryBlock_noRaise]
  split_ifs with he
  · have hc := (isEmpty_iff _).1 he
    rw [queueBatch_noRaise]
    have hpart := takeBatch_partition cfg w.q
    refine ⟨⟨hw.running, hw.alive, hw.cacheOpen⟩, ?_, ?_, fun hl => ?_⟩
    · simp only [settled, pending, hw.running, if_true, hc, List.nil_append, List.append_assoc,
        hpart]
    · simp only [settled, load, hc, List.length_nil, Nat.zero_add]
      exact length_takeBatch_le cfg w.q
    · have hq : w.q ≠ [] := fun h => by simp [load, hc, h] at hl
      simp only [settled, load, hc, List.length_nil, Nat.zero_add]
      exact length_takeBatch_lt cfg hq
  · have hc : w.cache.rows ≠ [] := mt (isEmpty_iff _).2 he
    have hR := readBatch_ne_nil hbs hc
    have hsplit := readBatch_append_deleteBatch cfg.batchSize w.cache
    have hlen := congrArg List.length hsplit
    rw [List.length_append] at hlen
    have hpos := List.length_pos.2 hR
    rw [cacheBatch_noRaise, if_neg hR]
    refine ⟨⟨hw.running, hw.alive, hw.cacheOpen⟩, ?_, ?_, fun _ => ?_⟩
    · simp only [settled, pending, hw.running, if_true]
      rw [← hsplit]
      simp only [List.append_assoc]
    all_goals simp only [settled, load]; omega

/-- **A pass with the database up** loses no row, keeps the order, and does at least one unit of
the work left when there is any. -/
theorem workerPass_ok (cfg : Config) (hbs : cfg.batchSize ≠ 0) {w : Writer} (hw : Ready w) :
    Ready (workerPass cfg .ok w) ∧
      (workerPass cfg .ok w).committed ++ pending (workerPass cfg .ok w) = w.committed ++ pending w ∧
      load (workerPass cfg .ok w) ≤ load w ∧ (0 < load w → load (workerPass cfg .ok w) < load w) := by
  obtain ⟨hw₁, hc₁, hp₁, hl₁⟩ := maybeFlushQueueOverflow_ok cfg hw
  obtain ⟨hw₂, he₂, hl₂, hlt₂⟩ := tryBlock_ok_progress cfg hbs hw₁
  rw [workerPass_noRaise cfg rfl]
  dsimp only [PassEnv.ok]
  refine ⟨hw₂, by rw [he₂, hc₁, hp₁], hl₂.trans hl₁, fun hl => ?_⟩
  by_cases h : 0 < load (maybeFlushQueueOverflow cfg (fun _ => true) w)
  · exact (hlt₂ h).trans_le hl₁
  · omega

theorem length_q_maybeFlushQueueOverflow (cfg : Config) (stored : Nat → Bool) (w : Writer) :
    (maybeFlushQueueOverflow cfg stored w).q.length ≤ w.q.length := by
  unfold maybeFlushQueueOverflow drainQueueToCache
  split_ifs
  · rw [(writeChunks_spill _ _ _ _).2.1]; exact Nat.zero_le _
  · exact le_rfl

theorem length_q_queueBatch (cfg : Config) (w : Writer) :
    (settled (queueBatch cfg (fun _ => false) w)).q.length ≤ w.q.length := by
  rw [queueBatch_noRaise]
  exact length_takeBatch_le cfg w.q

theorem length_q_workerPass_ok (cfg : Config) (w : Writer) :
    (workerPass cfg .ok w).q.length ≤ w.q.length := by
  rw [workerPass_noRaise cfg rfl]
  refine le_trans ?_ (length_q_maybeFlushQueueOverflow cfg PassEnv.ok.overflowStored w)
  rw [tryBlock_noRaise]
  split_ifs
  · exact length_q_queueBatch cfg _
  · rw [cacheBatch_noRaise]
    split_ifs
    · exact length_q_queueBatch cfg _
    · exact le_rfl

/-! ## Passes -/

theorem run_passes (cfg : Config) (hbs : cfg.batchSize ≠ 0) :
    ∀ (n : Nat) {w : Writer}, Ready w →
      Ready (run cfg w (List.replicate n (.pass .ok))) ∧
      (run cfg w (List.replicate n (.pass .ok))).committed ++
          pending (run cfg w (List.replicate n (.pass .ok))) = w.committed ++ pending w ∧
      load (run cfg w (List.replicate n (.pass .ok))) ≤ load w - n
  | 0, w, hw => ⟨hw, rfl, le_rfl⟩
  | n + 1, w, hw => by
    obtain ⟨hw', he', hl', hlt'⟩ := workerPass_ok cfg hbs hw
    obtain ⟨hw'', he'', hl''⟩ := run_passes cfg hbs n hw'
    have hrun : run cfg w (List.replicate (n + 1) (.pass .ok)) =
        run cfg (workerPass cfg .ok w) (List.replicate n (.pass .ok)) := by
      rw [List.replicate_succ, ← step_pass cfg hw]; rfl
    rw [hrun]
    refine ⟨hw'', he''.trans he', ?_⟩
    omega

theorem run_replicate_succ (cfg : Config) (w : Writer) (e : Event) (k : Nat) :
    run cfg w (List.replicate (k + 1) e) = step cfg (run cfg w (List.replicate k e)) e := by
  rw [List.replicate_succ', run, List.foldl_append]; rfl

theorem run_passes_drain (cfg : Config) (hbs : cfg.batchSize ≠ 0) {w : Writer} (hw : Ready w)
    {n : Nat} (hn : load w ≤ n) :
    (run cfg w (List.replicate n (.pass .ok))).committed = w.committed ++ pending w ∧
      (run cfg w (List.replicate n (.pass .ok))).cache.rows = [] ∧
      (run cfg w (List.replicate n (.pass .ok))).q = [] := by
  obtain ⟨-, he, hl⟩ := run_passes cfg hbs n hw
  have h0 : load (run cfg w (List.replicate n (.pass .ok))) = 0 := by omega
  simp only [load, Nat.add_eq_zero, List.length_eq_zero] at h0
  refine ⟨?_, h0.1, h0.2⟩
  simpa [pending, h0.1, h0.2] using he

/-- **If the database stays up, the worker drains everything it holds.**  For every writer whose
worker makes passes with an open spill store, and any `batch_size` other than `0`, as many passes
with no raising call and no refused spill write as there are spilled rows and queued items commit
exactly the spilled rows and then the queued rows, in order and each once, and leave the spill store
and the queue empty.  Each of these passes loses no row (the rows committed followed by the rows
pending stay the same list) and, while there is work left, does at least one unit of it. -/
theorem run_drains_when_db_up (cfg : Config) (hbs : cfg.batchSize ≠ 0) {w : Writer} (hw : Ready w)
    {n : Nat} (hn : load w ≤ n) :
    (run cfg w (List.replicate n (.pass .ok))).committed = w.committed ++ w.cache.rows ++ rowsOf w.q ∧
      (run cfg w (List.replicate n (.pass .ok))).cache.rows = [] ∧
      (run cfg w (List.replicate n (.pass .ok))).q = [] ∧
      ∀ k < n,
        (run cfg w (List.replicate (k + 1) (.pass .ok))).committed ++
            pending (run cfg w (List.replicate (k + 1) (.pass .ok))) =
          (run cfg w (List.replicate k (.pass .ok))).committed ++
            pending (run cfg w (List.replicate k (.pass .ok))) ∧
        (0 < load (run cfg w (List.replicate k (.pass .ok))) →
          load (run cfg w (List.replicate (k + 1) (.pass .ok))) <
            load (run cfg w (List.replicate k (.pass .ok)))) := by
  obtain ⟨hc, hr, hq⟩ := run_passes_drain cfg hbs hw hn
  refine ⟨?_, hr, hq, fun k _ => ?_⟩
  · rw [hc, pending, if_pos hw.running, List.append_assoc]
  · obtain ⟨hwk, -, -⟩ := run_passes cfg hbs k hw
    obtain ⟨-, he, -, hlt⟩ := workerPass_ok cfg hbs hwk
    rw [run_replicate_succ, step_pass cfg hwk]
    exact ⟨he, hlt⟩

/-- A writer that finds one row spilled by an earlier session and has one row queued. -/
def spilledAndQueued : Writer :=
  run Config.default (Writer.init (SpillFile.ofRows [probeRow 0 0xAA]) []) [.enqueue (probeRow 1 0xBB)]

theorem run_drains_when_db_up_two :
    Ready spilledAndQueued ∧ load spilledAndQueued ≤ 2 ∧
      (run Config.default spilledAndQueued (List.replicate 2 (.pass .ok))).committed =
          spilledAndQueued.committed ++ spilledAndQueued.cache.rows ++ rowsOf spilledAndQueued.q ∧
        (run Config.default spilledAndQueued (List.replicate 2 (.pass .ok))).cache.rows = [] ∧
        (run Config.default spilledAndQueued (List.replicate 2 (.pass .ok))).q = [] ∧
        ∀ k < 2,
          (run Config.default spilledAndQueued (List.replicate (k + 1) (.pass .ok))).committed ++
              pending (run Config.default spilledAndQueued (List.replicate (k + 1) (.pass .ok))) =
            (run Config.default spilledAndQueued (List.replicate k (.pass .ok))).committed ++
              pending (run Config.default spilledAndQueued (List.replicate k (.pass .ok))) ∧
          (0 < load (run Config.default spilledAndQueued (List.replicate k (.pass .ok))) →
            load (run Config.default spilledAndQueued (List.replicate (k + 1) (.pass .ok))) <
              load (run Config.default spilledAndQueued (List.replicate k (.pass .ok)))) :=
  have hw : Ready spilledAndQueued := ⟨rfl, rfl, rfl⟩
  have hn : load spilledAndQueued ≤ 2 := by decide
  ⟨hw, hn, run_drains_when_db_up Config.default (by decide) hw hn⟩

/-! ## A producer alongside the worker -/

/-- What may happen while the database stays up: a producer's `enqueue`, or a pass with no raising
call and no refused spill write. -/
def Fed : Event → Prop
  | .enqueue _ => True
  | .pass env => env = .ok
  | _ => False

/-- **A queue with room for `k` items**: `queue_max` is `0` or less, which makes `queue.Queue`
unbounded, or at least `k`. -/
def Room (cfg : Config) (k : Nat) : Prop := cfg.queueMax ≤ 0 ∨ (k : Int) ≤ cfg.queueMax

instance (cfg : Config) (k : Nat) : Decidable (Room cfg k) :=
  inferInstanceAs (Decidable (_ ∨ _))

theorem Room.mono {cfg : Config} {k k' : Nat} (h : Room cfg k') (hk : k ≤ k') : Room cfg k :=
  h.imp id fun h' => le_trans (by exact_mod_cast hk) h'

theorem enqueue_of_room (cfg : Config) {w : Writer} (hroom : Room cfg (w.q.length + 1)) (r : Row) :
    enqueue cfg r w = { w with q := w.q ++ [.row r], countEnqueued := w.countEnqueued + 1 } := by
  rw [enqueue, if_neg]
  simp only [queueFull, Bool.and_eq_true, decide_eq_true_eq, not_and, not_le]
  unfold Room at hroom
  omega

/-- **One step while the database stays up** loses no row and keeps the order: an `enqueue` on a
queue with room appends its row to what is pending, and a pass does what `workerPass_ok` says. -/
theorem step_fed (cfg : Config) (hbs : cfg.batchSize ≠ 0) {w : Writer} (hw : Ready w) {e : Event}
    (he : Fed e) (hroom : Room cfg (w.q.length + (enqueued [e]).length)) :
    Ready (step cfg w e) ∧
      (step cfg w e).committed ++ pending (step cfg w e) = w.committed ++ pending w ++ enqueued [e] ∧
      load (step cfg w e) ≤ load w + (enqueued [e]).length ∧
      (step cfg w e).q.length ≤ w.q.length + (enqueued [e]).length := by
  cases e with
  | enqueue r =>
    simp only [step, enqueue_of_room cfg hroom]
    refine ⟨⟨hw.running, hw.alive, hw.cacheOpen⟩, ?_, ?_, ?_⟩
    · simp [pending, hw.running, enqueued]
    · simp [load, enqueued, Nat.add_assoc]
    · simp [enqueued]
  | pass env =>
    obtain rfl : env = .ok := he
    obtain ⟨hw', he', hl', -⟩ := workerPass_ok cfg hbs hw
    rw [step_pass cfg hw, he']
    exact ⟨hw', (List.append_nil _).symm, hl'.trans (Nat.le_add_right _ _),
      (length_q_workerPass_ok cfg w).trans (Nat.le_add_right _ _)⟩
  | shutdown | closeBegin | closeEnd => exact absurd he id

theorem run_fed (cfg : Config) (hbs : cfg.batchSize ≠ 0) {wevs : List Event}
    (hfed : ∀ e ∈ wevs, Fed e) {w : Writer} (hw : Ready w)
    (hroom : Room cfg (w.q.length + (enqueued wevs).length)) :
    Ready (run cfg w wevs) ∧
      (run cfg w wevs).committed ++ pending (run cfg w wevs) = w.committed ++ pending w ++ enqueued wevs ∧
      load (run cfg w wevs) ≤ load w + (enqueued wevs).length := by
  induction wevs generalizing w with
  | nil => exact ⟨hw, (List.append_nil _).symm, Nat.le_add_right _ _⟩
  | cons e es ih =>
    rw [enqueued_cons, List.length_append] at hroom ⊢
    obtain ⟨hw₁, he₁, hl₁, hq₁⟩ := step_fed cfg hbs hw (hfed e (List.mem_cons_self _ _))
      (hroom.mono (by omega))
    obtain ⟨hw', he', hl'⟩ := ih (fun e' h => hfed e' (List.mem_cons_of_mem _ h)) hw₁
      (hroom.mono (by omega))
    refine ⟨hw', ?_, ?_⟩
    · rw [show run cfg w (e :: es) = run cfg (step cfg w e) es from rfl, he', he₁, List.append_assoc]
    · exact (show load (run cfg (step cfg w e) es) ≤ _ from hl').trans (by omega)

theorem run_fed_drain (cfg : Config) (hbs : cfg.batchSize ≠ 0) {w : Writer} (hw : Ready w)
    {wevs : List Event} (hfed : ∀ e ∈ wevs, Fed e)
    (hroom : Room cfg (w.q.length + (enqueued wevs).length)) {n : Nat}
    (hn : load w + (enqueued wevs).length ≤ n) :
    (run cfg w (wevs ++ List.replicate n (.pass .ok))).committed =
        w.committed ++ pending w ++ enqueued wevs ∧
      (run cfg w (wevs ++ List.replicate n (.pass .ok))).cache.rows = [] ∧
      (run cfg w (wevs ++ List.replicate n (.pass .ok))).q = [] := by
  obtain ⟨hw₁, he₁, hl₁⟩ := run_fed cfg hbs hfed hw hroom
  have hsplit : run cfg w (wevs ++ List.replicate n (.pass .ok)) =
      run cfg (run cfg w wevs) (List.replicate n (.pass .ok)) := List.foldl_append _ _ _ _
  rw [hsplit, ← he₁]
  exact run_passes_drain cfg hbs hw₁ (hl₁.trans hn)

/-- **With the database up, everything handed over is committed.**  For every writer whose worker
makes passes with an open spill store, any `batch_size` other than `0`, and any interleaving of
`enqueue` calls with passes that have no raising call and no refused spill write, in which the queue
never has to hold more than `queue_max` items: the interleaving, followed by as many passes as there
is work left, commits exactly the spilled rows, then the queued rows, then the rows handed to
`enqueue`, in order and each once, and leaves the spill store and the queue empty. -/
theorem run_commits_everything_fed (cfg : Config) (hbs : cfg.batchSize ≠ 0) {w : Writer}
    (hw : Ready w) {wevs : List Event} (hfed : ∀ e ∈ wevs, Fed e)
    (hroom : Room cfg (w.q.length + (enqueued wevs).length)) {n : Nat}
    (hn : load w + (enqueued wevs).length ≤ n) :
    (run cfg w (wevs ++ List.replicate n (.pass .ok))).committed =
        w.committed ++ w.cache.rows ++ rowsOf w.q ++ enqueued wevs ∧
      (run cfg w (wevs ++ List.replicate n (.pass .ok))).cache.rows = [] ∧
      (run cfg w (wevs ++ List.replicate n (.pass .ok))).q = [] := by
  obtain ⟨hc, hr, hq⟩ := run_fed_drain cfg hbs hw hfed hroom hn
  refine ⟨?_, hr, hq⟩
  rw [hc, pending, if_pos hw.running]
  simp only [List.append_assoc]

/-- Two rows handed over around a pass, to the writer of `spilledAndQueued`. -/
def fedAroundPass : List Event := [.enqueue (probeRow 2 0xCC), .pass .ok, .enqueue (probeRow 3 0xDD)]

theorem run_commits_everything_fed_four :
    Ready spilledAndQueued ∧ (∀ e ∈ fedAroundPass, Fed e) ∧
      Room Config.default (spilledAndQueued.q.length + (enqueued fedAroundPass).length) ∧
      load spilledAndQueued + (enqueued fedAroundPass).length ≤ 4 ∧
      (run Config.default spilledAndQueued (fedAroundPass ++ List.replicate 4 (.pass .ok))).committed =
          spilledAndQueued.committed ++ spilledAndQueued.cache.rows ++ rowsOf spilledAndQueued.q ++
            enqueued fedAroundPass ∧
        (run Config.default spilledAndQueued (fedAroundPass ++ List.replicate 4 (.pass .ok))).cache.rows = [] ∧
        (run Config.default spilledAndQueued (fedAroundPass ++ List.replicate 4 (.pass .ok))).q = [] :=
  have hw : Ready spilledAndQueued := ⟨rfl, rfl, rfl⟩
  have hfed : ∀ e ∈ fedAroundPass, Fed e := by simp [fedAroundPass, Fed]
  have hroom : Room Config.default (spilledAndQueued.q.length + (enqueued fedAroundPass).length) := by
    decide
  have hn : load spilledAndQueued + (enqueued fedAroundPass).length ≤ 4 := by decide
  ⟨hw, hfed, hroom, hn, run_commits_everything_fed Config.default (by decide) hw hfed hroom hn⟩

/-! ## Failures do not stop the worker -/

theorem ready_writeToCache (s : Bool) (rows : List Row) {w : Writer} (hw : Ready w) :
    Ready (writeToCache s rows w) := by
  unfold writeToCache
  split_ifs <;> exact ⟨hw.running, hw.alive, hw.cacheOpen⟩

theorem ready_writeChunks (stored : Nat → Bool) (k : Nat) (cs : List (List Row)) {w : Writer}
    (hw : Ready w) : Ready (writeChunks stored k cs w) := by
  induction cs generalizing k w with
  | nil => exact hw
  | cons c cs ih => exact ih (k + 1) (ready_writeToCache _ c hw)

theorem ready_drainQueueToCache (cfg : Config) (stored : Nat → Bool) {w : Writer} (hw : Ready w) :
    Ready (drainQueueToCache cfg stored w) :=
  ready_writeChunks _ _ _ ⟨hw.running, hw.alive, hw.cacheOpen⟩

theorem ready_maybeFlushQueueOverflow (cfg : Config) (stored : Nat → Bool) {w : Writer}
    (hw : Ready w) : Ready (maybeFlushQueueOverflow cfg stored w) := by
  unfold maybeFlushQueueOverflow
  split_ifs
  · exact ready_drainQueueToCache cfg stored hw
  · exact hw

theorem ready_queueBatch (cfg : Config) (raises : Site → Bool) {w : Writer} (hw : Ready w) :
    Ready (settled (queueBatch cfg raises w)) := by
  obtain ⟨c, -, h, -⟩ := queueBatch_cases cfg raises w
  rw [h]
  exact ⟨hw.running, hw.alive, hw.cacheOpen⟩

theorem ready_cacheBatch (cfg : Config) (raises : Site → Bool) {w : Writer} (hw : Ready w) :
    Ready (settled (cacheBatch cfg raises w)) := by
  rcases cacheBatch_cases cfg raises w with h | ⟨-, h⟩ | h | h | h <;> rw [h]
  · exact ⟨hw.running, hw.alive, hw.cacheOpen⟩
  · exact ready_queueBatch cfg raises ⟨hw.running, hw.alive, rfl⟩
  all_goals exact ⟨hw.running, hw.alive, hw.cacheOpen⟩

theorem ready_tryBlock (cfg : Config) (raises : Site → Bool) {w : Writer} (hw : Ready w) :
    Ready (settled (tryBlock cfg raises w)) := by
  rcases tryBlock_cases cfg raises w with h | h | ⟨-, h⟩ | ⟨-, h⟩ <;> rw [h]
  · exact hw
  · exact ⟨hw.running, hw.alive, hw.cacheOpen⟩
  · exact ready_queueBatch cfg raises ⟨hw.running, hw.alive, hw.cacheOpen⟩
  · exact ready_cacheBatch cfg raises ⟨hw.running, hw.alive, hw.cacheOpen⟩

theorem ready_onError (cfg : Config) (stored : Nat → Bool) {w : Writer} (hw : Ready w) :
    Ready (onError cfg stored w) := by
  rw [onError_eq]
  split_ifs
  · exact ready_drainQueueToCache cfg _ ⟨hw.running, hw.alive, hw.cacheOpen⟩
  · exact ready_drainQueueToCache cfg _ (ready_writeToCache _ _ ⟨hw.running, hw.alive, hw.cacheOpen⟩)

/-- **A pass, whatever fails in it**, leaves the worker running with an open spill store. -/
theorem ready_workerPass (cfg : Config) (env : PassEnv) {w : Writer} (hw : Ready w) :
    Ready (workerPass cfg env w) := by
  have h := ready_tryBlock cfg env.raises (ready_maybeFlushQueueOverflow cfg env.overflowStored hw)
  unfold workerPass
  cases htb : tryBlock cfg env.raises (maybeFlushQueueOverflow cfg env.overflowStored w) with
  | ok w' => rw [htb] at h; exact h
  | error w' => rw [htb] at h; exact ready_onError cfg env.errorStored h

/-- What may happen while the writer is open: a producer's `enqueue`, or a pass of the worker in
which any calls raise and any spill writes are refused. -/
def Live : Event → Prop
  | .enqueue _ | .pass _ => True
  | _ => False

theorem ready_step (cfg : Config) {w : Writer} (hw : Ready w) {e : Event} (he : Live e) :
    Ready (step cfg w e) := by
  cases e with
  | enqueue r =>
    simp only [step, enqueue]
    split_ifs <;> exact ⟨hw.running, hw.alive, hw.cacheOpen⟩
  | pass env =>
    rw [step_pass cfg hw]
    exact ready_workerPass cfg env hw
  | shutdown | closeBegin | closeEnd => exact absurd he id

theorem ready_run (cfg : Config) {evs : List Event} (hlive : ∀ e ∈ evs, Live e) {w : Writer}
    (hw : Ready w) : Ready (run cfg w evs) := by
  induction evs generalizing w with
  | nil => exact hw
  | cons e es ih =>
    exact ih (fun e' h => hlive e' (List.mem_cons_of_mem _ h))
      (ready_step cfg hw (hlive e (List.mem_cons_self _ _)))

/-- **After any outage, the worker catches up.**  For every writer whose worker makes passes with an
open spill store, and any `batch_size` other than `0`: after any interleaving of `enqueue` calls and
passes in which any calls raise and any spill writes are refused, the worker still makes passes
with an open spill store; and as many passes with the database up as there is work left then commit
exactly what was left in the spill store and then in the queue, in order and each once, and leave
both empty. -/
theorem catches_up_after_outage (cfg : Config) (hbs : cfg.batchSize ≠ 0) {w : Writer} (hw : Ready w)
    {evs : List Event} (hlive : ∀ e ∈ evs, Live e) {n : Nat} (hn : load (run cfg w evs) ≤ n) :
    Ready (run cfg w evs) ∧
      (run cfg w (evs ++ List.replicate n (.pass .ok))).committed =
        (run cfg w evs).committed ++ (run cfg w evs).cache.rows ++ rowsOf (run cfg w evs).q ∧
      (run cfg w (evs ++ List.replicate n (.pass .ok))).cache.rows = [] ∧
      (run cfg w (evs ++ List.replicate n (.pass .ok))).q = [] := by
  have hw₁ := ready_run cfg hlive hw
  have hsplit : run cfg w (evs ++ List.replicate n (.pass .ok)) =
      run cfg (run cfg w evs) (List.replicate n (.pass .ok)) := List.foldl_append _ _ _ _
  obtain ⟨hc, hr, hq⟩ := run_passes_drain cfg hbs hw₁ hn
  rw [hsplit]
  refine ⟨hw₁, ?_, hr, hq⟩
  rw [hc, pending, if_pos hw₁.running, List.append_assoc]

/-- A commit fails, then the database is unreachable: the two rows end up spilled. -/
def outage : List Event :=
  [.enqueue (probeRow 0 0xAA), .pass (.failing .commitBatch), .enqueue (probeRow 1 0xBB),
    .pass (.failing .connect)]

theorem catches_up_after_outage_two :
    Ready (Writer.init SpillFile.empty []) ∧ (∀ e ∈ outage, Live e) ∧
      load (run Config.default (Writer.init SpillFile.empty []) outage) ≤ 2 ∧
      Ready (run Config.default (Writer.init SpillFile.empty []) outage) ∧
      (run Config.default (Writer.init SpillFile.empty []) (outage ++ List.replicate 2 (.pass .ok))).committed =
        (run Config.default (Writer.init SpillFile.empty []) outage).committed ++
          (run Config.default (Writer.init SpillFile.empty []) outage).cache.rows ++
          rowsOf (run Config.default (Writer.init SpillFile.empty []) outage).q ∧
      (run Config.default (Writer.init SpillFile.empty [])
          (outage ++ List.replicate 2 (.pass .ok))).cache.rows = [] ∧
      (run Config.default (Writer.init SpillFile.empty []) (outage ++ List.replicate 2 (.pass .ok))).q = [] :=
  have hw : Ready (Writer.init SpillFile.empty []) := ⟨rfl, rfl, rfl⟩
  have hlive : ∀ e ∈ outage, Live e := by simp [outage, Live]
  have hn : load (run Config.default (Writer.init SpillFile.empty []) outage) ≤ 2 := by decide
  ⟨hw, hlive, hn, catches_up_after_outage Config.default (by decide) hw hlive hn⟩

end WireTap.Ingest.Progress
