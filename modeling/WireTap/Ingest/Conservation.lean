import Mathlib.Tactic.ITauto
import WireTap.Ingest.Worker

/-! # Where the rows are

A writer *holds* a row while it is in the queue, in the worker's `batch`, in the spill store or in
the SQL store (`held`).  Two facts hold of every session:

* no row is invented: every row held at the end was held at the start or handed to `enqueue`
  (`session_invents_no_row`);
* with a `batch_size` other than `0`, no row is lost silently: every row held at the start or
  handed to `enqueue` is still held at the end, unless `count_dropped` grew
  (`session_loses_no_row_silently`).

Neither says a row is held once: the handler writes back to the spill store a batch it read from
there, or one it already committed.  The second needs `batch_size ≠ 0` because with `0` the read
of a non-empty store returns nothing and the reset deletes the file; with any other `batch_size`
that reset is never reached, so once a drain starts `_draining_cache` stays set for the rest of the
session (`run_keeps_draining`).

Each operation gets two lemmas, one per direction: `Gives w rows w'` (the rows `w'` holds were held
by `w` or are among `rows`) and `Keeps w rows w'` (what `w` held and the rows of `rows` are held by
`w'`, or `count_dropped` grew).  Runs compose them by `Gives.trans` and `Keeps.trans`. -/

namespace WireTap.Ingest.Conservation

open WireTap.Ingest.Enqueue WireTap.Ingest.Spill WireTap.Ingest.Worker

/-- **The rows a writer holds**: in the queue, in the worker's `batch`, in the spill store and in
the SQL store. -/
def held (w : Writer) : List Row := rowsOf w.q ++ w.batch ++ w.cache.rows ++ w.committed

/-- The rows a session's producers hand to `enqueue`. -/
def enqueued : List Event → List Row
  | [] => []
  | .enqueue r :: events => r :: enqueued events
  | _ :: events => enqueued events

/-- The state a `try` block leaves, whether it returned or raised. -/
def settled : Except Writer Writer → Writer
  | .ok w => w
  | .error w => w

/-- The rows `w'` holds were held by `w` or are among `rows`. -/
def Gives (w : Writer) (rows : List Row) (w' : Writer) : Prop := held w' ⊆ held w ++ rows

/-- The rows `w` held and the rows of `rows` are held by `w'`, or `count_dropped` grew; and
`count_dropped` never falls. -/
def Keeps (w : Writer) (rows : List Row) (w' : Writer) : Prop :=
  w.countDropped ≤ w'.countDropped ∧
    ∀ r ∈ held w ++ rows, r ∈ held w' ∨ w.countDropped < w'.countDropped

@[simp] theorem rowsOf_nil : rowsOf [] = [] := rfl

@[simp] theorem rowsOf_cons (i : Item) (items : List Item) :
    rowsOf (i :: items) = i.rows ++ rowsOf items := rfl

@[simp] theorem rowsOf_append (a b : List Item) : rowsOf (a ++ b) = rowsOf a ++ rowsOf b :=
  List.flatMap_append _ _ _

@[simp] theorem rows_row (r : Row) : (Item.row r).rows = [r] := rfl

@[simp] theorem rows_wake : Item.wake.rows = [] := rfl

section Relations

variable {w w₁ w₂ w₃ : Writer} {a b : List Row}

theorem Gives.refl (w : Writer) : Gives w [] w := by simp [Gives]

theorem Gives.trans (h₁ : Gives w₁ a w₂) (h₂ : Gives w₂ b w₃) : Gives w₁ (a ++ b) w₃ := by
  intro r hr
  rcases List.mem_append.1 (h₂ hr) with h | h
  · rcases List.mem_append.1 (h₁ h) with h | h <;> simp [h]
  · simp [h]

theorem Gives.of_subset (h : Gives w₁ a w₂) (hs : held w₁ ++ a ⊆ held w ++ b) : Gives w b w₂ :=
  List.Subset.trans h hs

theorem Keeps.refl (w : Writer) : Keeps w [] w := ⟨le_rfl, fun r hr => .inl (by simpa using hr)⟩

theorem Keeps.trans (h₁ : Keeps w₁ a w₂) (h₂ : Keeps w₂ b w₃) : Keeps w₁ (a ++ b) w₃ := by
  refine ⟨h₁.1.trans h₂.1, fun r hr => ?_⟩
  rw [← List.append_assoc, List.mem_append] at hr
  rcases hr with hr | hr
  · rcases h₁.2 r hr with h | h
    · exact (h₂.2 r (List.mem_append_left _ h)).imp_right h₁.1.trans_lt
    · exact .inr (h.trans_le h₂.1)
  · exact (h₂.2 r (List.mem_append_right _ hr)).imp_right h₁.1.trans_lt

theorem Keeps.of_subset (h : Keeps w₁ a w₂) (hs : held w ++ b ⊆ held w₁ ++ a)
    (hc : w.countDropped = w₁.countDropped) : Keeps w b w₂ :=
  ⟨hc ▸ h.1, fun r hr => hc ▸ h.2 r (hs hr)⟩

end Relations

/-! ## Spill writes -/

theorem gives_writeToCache (s : Bool) (rows : List Row) (w : Writer) :
    Gives w rows (writeToCache s rows w) := by
  intro r
  unfold writeToCache
  split_ifs <;> simp only [held, rows_writeBatch, List.mem_append] <;> itauto

theorem keeps_writeToCache (s : Bool) (rows : List Row) (w : Writer) :
    Keeps w rows (writeToCache s rows w) := by
  unfold writeToCache
  split_ifs
  · refine ⟨le_rfl, fun r hr => .inl ?_⟩
    simp only [held, rows_writeBatch, List.mem_append] at hr ⊢; itauto
  · refine ⟨Nat.le_add_right _ _, fun r hr => ?_⟩
    rcases List.mem_append.1 hr with hr | hr
    · exact .inl hr
    · exact .inr (Nat.lt_add_of_pos_right (List.length_pos_of_mem hr))

theorem gives_writeChunks (stored : Nat → Bool) (k : Nat) (cs : List (List Row)) (w : Writer) :
    Gives w cs.flatten (writeChunks stored k cs w) := by
  induction cs generalizing k w with
  | nil => exact Gives.refl w
  | cons c cs ih => exact (gives_writeToCache _ c w).trans (ih (k + 1) _)

theorem keeps_writeChunks (stored : Nat → Bool) (k : Nat) (cs : List (List Row)) (w : Writer) :
    Keeps w cs.flatten (writeChunks stored k cs w) := by
  induction cs generalizing k w with
  | nil => exact Keeps.refl w
  | cons c cs ih => exact (keeps_writeToCache _ c w).trans (ih (k + 1) _)

theorem flatten_drainChunks (bs : Int) (batch : List Row) (items : List Item) :
    (drainChunks bs batch items).flatten = batch ++ rowsOf items := by
  induction items generalizing batch with
  | nil => cases batch <;> simp [drainChunks]
  | cons it items ih =>
    cases it with
    | wake => simp [drainChunks, ih]
    | row r =>
      simp only [drainChunks]
      split_ifs <;> simp [ih]

theorem gives_drainQueueToCache (cfg : Config) (stored : Nat → Bool) (w : Writer) :
    Gives w [] (drainQueueToCache cfg stored w) :=
  (gives_writeChunks _ _ _ _).of_subset fun r => by
    simp only [held, flatten_drainChunks, List.nil_append, rowsOf_nil, List.append_nil,
      List.mem_append]
    itauto

theorem keeps_drainQueueToCache (cfg : Config) (stored : Nat → Bool) (w : Writer) :
    Keeps w [] (drainQueueToCache cfg stored w) :=
  (keeps_writeChunks _ _ _ _).of_subset (fun r => by
    simp only [held, flatten_drainChunks, List.nil_append, rowsOf_nil, List.append_nil,
      List.mem_append]
    itauto) rfl

@[simp] theorem batch_writeToCache (s : Bool) (rows : List Row) (w : Writer) :
    (writeToCache s rows w).batch = w.batch := by
  unfold writeToCache; split_ifs <;> rfl

@[simp] theorem committed_writeToCache (s : Bool) (rows : List Row) (w : Writer) :
    (writeToCache s rows w).committed = w.committed := by
  unfold writeToCache; split_ifs <;> rfl

@[simp] theorem draining_writeToCache (s : Bool) (rows : List Row) (w : Writer) :
    (writeToCache s rows w).draining = w.draining := by
  unfold writeToCache; split_ifs <;> rfl

theorem writeChunks_fields (stored : Nat → Bool) (k : Nat) (cs : List (List Row)) (w : Writer) :
    (writeChunks stored k cs w).batch = w.batch ∧ (writeChunks stored k cs w).committed = w.committed ∧
      (writeChunks stored k cs w).draining = w.draining := by
  induction cs generalizing k w with
  | nil => exact ⟨rfl, rfl, rfl⟩
  | cons c cs ih => simpa using ih (k + 1) (writeToCache (stored k) c w)

theorem drainQueueToCache_fields (cfg : Config) (stored : Nat → Bool) (w : Writer) :
    (drainQueueToCache cfg stored w).batch = w.batch ∧
      (drainQueueToCache cfg stored w).committed = w.committed ∧
      (drainQueueToCache cfg stored w).draining = w.draining :=
  writeChunks_fields _ _ _ _

theorem maybeFlushQueueOverflow_fields (cfg : Config) (stored : Nat → Bool) (w : Writer) :
    (maybeFlushQueueOverflow cfg stored w).batch = w.batch ∧
      (maybeFlushQueueOverflow cfg stored w).committed = w.committed ∧
      (maybeFlushQueueOverflow cfg stored w).draining = w.draining := by
  unfold maybeFlushQueueOverflow
  split_ifs
  · exact drainQueueToCache_fields cfg stored w
  · exact ⟨rfl, rfl, rfl⟩

theorem gives_maybeFlushQueueOverflow (cfg : Config) (stored : Nat → Bool) (w : Writer) :
    Gives w [] (maybeFlushQueueOverflow cfg stored w) := by
  unfold maybeFlushQueueOverflow
  split_ifs
  · exact gives_drainQueueToCache cfg stored w
  · exact Gives.refl w

theorem keeps_maybeFlushQueueOverflow (cfg : Config) (stored : Nat → Bool) (w : Writer) :
    Keeps w [] (maybeFlushQueueOverflow cfg stored w) := by
  unfold maybeFlushQueueOverflow
  split_ifs
  · exact keeps_drainQueueToCache cfg stored w
  · exact Keeps.refl w

/-! ## Priority 2: a batch from the queue -/

theorem getMore_partition (bs : Int) (batch : List Row) (items : List Item) :
    (getMore bs batch items).1 ++ rowsOf (getMore bs batch items).2 = batch ++ rowsOf items := by
  induction items generalizing batch with
  | nil => simp [getMore]
  | cons it items ih => simp only [getMore]; split_ifs <;> simp [ih]

theorem takeBatch_partition (cfg : Config) (q : List Item) :
    (takeBatch cfg q).1 ++ rowsOf (takeBatch cfg q).2 = rowsOf q := by
  rw [takeBatch, getMore_partition]; cases q <;> rfl

theorem mem_rowsOf_iff_taken (cfg : Config) (q : List Item) (r : Row) :
    r ∈ rowsOf q ↔ r ∈ (takeBatch cfg q).1 ∨ r ∈ rowsOf (takeBatch cfg q).2 := by
  rw [← takeBatch_partition cfg q, List.mem_append]

/-- **Every way priority 2 ends**: the batch is taken off the queue, and the rows `c` are committed,
either none or the whole batch; it returns only with a batch that is committed or empty. -/
theorem queueBatch_cases (cfg : Config) (raises : Site → Bool) (w : Writer) :
    ∃ c, (c = [] ∨ c = (takeBatch cfg w.q).1) ∧
      settled (queueBatch cfg raises w) =
        { w with q := (takeBatch cfg w.q).2, batch := (takeBatch cfg w.q).1,
                 committed := w.committed ++ c, countWritten := w.countWritten + c.length } ∧
      ∀ w', queueBatch cfg raises w = .ok w' → w'.batch ⊆ w'.committed := by
  unfold queueBatch
  dsimp only
  split_ifs with he hk hr
  · exact ⟨[], .inl rfl, by simp [settled], by rintro w' ⟨⟩⟩
  · exact ⟨[], .inl rfl, by simp [settled], by rintro w' ⟨⟩; simp [List.isEmpty_iff.1 he]⟩
  · exact ⟨[], .inl rfl, by simp [settled], by rintro w' ⟨⟩⟩
  · exact ⟨_, .inr rfl, rfl, by rintro w' ⟨⟩; exact List.subset_append_right _ _⟩

theorem gives_queueBatch (cfg : Config) (raises : Site → Bool) (w : Writer) :
    Gives w [] (settled (queueBatch cfg raises w)) := by
  obtain ⟨c, hc, heq, -⟩ := queueBatch_cases cfg raises w
  intro r hr
  rcases hc with rfl | rfl <;>
  · simp only [heq, held, List.mem_append, List.append_nil, mem_rowsOf_iff_taken cfg w.q,
      List.not_mem_nil, or_false] at hr ⊢
    itauto

theorem keeps_queueBatch (cfg : Config) (raises : Site → Bool) {w : Writer}
    (hb : w.batch ⊆ w.committed) : Keeps w [] (settled (queueBatch cfg raises w)) := by
  obtain ⟨c, -, heq, -⟩ := queueBatch_cases cfg raises w
  refine ⟨by rw [heq], fun r hr => .inl ?_⟩
  have hbr : r ∈ w.batch → r ∈ w.committed := @hb r
  simp only [heq, held, List.mem_append, List.append_nil, mem_rowsOf_iff_taken cfg w.q] at hr ⊢
  itauto

/-! ## Priority 1: a batch from the spill store -/

/-- **Every way priority 1 ends**, for the read `R` of `batch_size` rows and its ids: a raise at the
read, the reset and priority 2 after a read of nothing, a raise before or after the commit, or the
commit and the delete. -/
theorem cacheBatch_cases (cfg : Config) (raises : Site → Bool) (w : Writer) :
    cacheBatch cfg raises w = .error { w with draining := true } ∨
    ((readBatch cfg.batchSize w.cache).2 = [] ∧ cacheBatch cfg raises w =
      queueBatch cfg raises (resetCache { w with draining := true, batch := [] })) ∨
    cacheBatch cfg raises w =
      .error { w with draining := true, batch := (readBatch cfg.batchSize w.cache).2 } ∨
    cacheBatch cfg raises w =
      .error { w with draining := true, batch := (readBatch cfg.batchSize w.cache).2,
                      committed := w.committed ++ (readBatch cfg.batchSize w.cache).2 } ∨
    cacheBatch cfg raises w =
      .ok { w with draining := true, batch := (readBatch cfg.batchSize w.cache).2,
                   committed := w.committed ++ (readBatch cfg.batchSize w.cache).2,
                   cache := deleteBatch (readBatch cfg.batchSize w.cache).1 w.cache,
                   countWritten := w.countWritten + (readBatch cfg.batchSize w.cache).2.length } := by
  unfold cacheBatch
  dsimp only
  split_ifs with h1 h2 h3 h4
  · exact .inl rfl
  · exact .inr (.inl ⟨List.isEmpty_iff.1 h2, by rw [List.isEmpty_iff.1 h2]⟩)
  · exact .inr (.inr (.inl rfl))
  · exact .inr (.inr (.inr (.inl rfl)))
  · exact .inr (.inr (.inr (.inr rfl)))

theorem gives_cacheBatch (cfg : Config) (raises : Site → Bool) (w : Writer) :
    Gives w [] (settled (cacheBatch cfg raises w)) := by
  have hR := readBatch_subset cfg.batchSize w.cache
  have hD := deleteBatch_subset (readBatch cfg.batchSize w.cache).1 w.cache
  rcases cacheBatch_cases cfg raises w with h | ⟨-, h⟩ | h | h | h <;> rw [h]
  · exact fun r hr => List.mem_append_left _ hr
  · exact (gives_queueBatch cfg raises _).of_subset fun r => by
      simp [held, resetCache]; itauto
  all_goals
    intro r hr
    have hRr : r ∈ (readBatch cfg.batchSize w.cache).2 → r ∈ w.cache.rows := @hR r
    have hDr : r ∈ (deleteBatch (readBatch cfg.batchSize w.cache).1 w.cache).rows → r ∈ w.cache.rows :=
      @hD r
    simp only [settled, held, List.mem_append, List.append_nil] at hr ⊢
    itauto

theorem readBatch_ne_nil {cfg : Config} (hbs : cfg.batchSize ≠ 0) {c : DiskCache}
    (hne : c.rows ≠ []) : (readBatch cfg.batchSize c).2 ≠ [] := fun h =>
  (readBatch_eq_nil h).elim hne hbs

theorem keeps_cacheBatch (cfg : Config) (hbs : cfg.batchSize ≠ 0) (raises : Site → Bool)
    {w : Writer} (hb : w.batch ⊆ w.committed) (hne : w.cache.rows ≠ []) :
    Keeps w [] (settled (cacheBatch cfg raises w)) := by
  rcases cacheBatch_cases cfg raises w with h | ⟨h0, -⟩ | h | h | h
  · rw [h]; exact ⟨le_rfl, fun r hr => .inl (by simpa using hr)⟩
  · exact absurd h0 (readBatch_ne_nil hbs hne)
  all_goals
    rw [h]
    refine ⟨le_rfl, fun r hr => .inl ?_⟩
    have hbr : r ∈ w.batch → r ∈ w.committed := @hb r
    have hdr := mem_deleteBatch_or_read w.cache cfg.batchSize (r := r)
    simp only [settled, held, List.mem_append, List.append_nil] at hr hdr ⊢
    itauto

theorem cacheBatch_ok_batch {cfg : Config} {raises : Site → Bool} {w w' : Writer}
    (h : cacheBatch cfg raises w = .ok w') : w'.batch ⊆ w'.committed := by
  rcases cacheBatch_cases cfg raises w with h' | ⟨-, h'⟩ | h' | h' | h' <;> rw [h'] at h
  · cases h
  · obtain ⟨-, -, -, hok⟩ := queueBatch_cases cfg raises (resetCache { w with draining := true, batch := [] })
    exact hok w' h
  · cases h
  · cases h
  · cases h; exact List.subset_append_right _ _

theorem draining_cacheBatch {cfg : Config} (hbs : cfg.batchSize ≠ 0) (raises : Site → Bool)
    {w : Writer} (hne : w.cache.rows ≠ []) : (settled (cacheBatch cfg raises w)).draining = true := by
  rcases cacheBatch_cases cfg raises w with h | ⟨h0, -⟩ | h | h | h
  · rw [h]; rfl
  · exact absurd h0 (readBatch_ne_nil hbs hne)
  all_goals rw [h]; rfl

/-! ## A pass -/

/-- **Every way the `try` block ends**: a raise at the connect or at `is_empty`, or priority 2 on an
empty store, or priority 1 on one that holds rows. -/
theorem tryBlock_cases (cfg : Config) (raises : Site → Bool) (w : Writer) :
    tryBlock cfg raises w = .error w ∨ tryBlock cfg raises w = .error { w with conn := true } ∨
    (w.cache.rows = [] ∧ tryBlock cfg raises w = queueBatch cfg raises { w with conn := true }) ∨
    (w.cache.rows ≠ [] ∧ tryBlock cfg raises w = cacheBatch cfg raises { w with conn := true }) := by
  unfold tryBlock
  dsimp only
  split_ifs with h1 h2 h3
  · exact .inl rfl
  · exact .inr (.inl rfl)
  · exact .inr (.inr (.inl ⟨(isEmpty_iff _).1 h3, rfl⟩))
  · exact .inr (.inr (.inr ⟨mt (isEmpty_iff _).2 h3, rfl⟩))

theorem gives_tryBlock (cfg : Config) (raises : Site → Bool) (w : Writer) :
    Gives w [] (settled (tryBlock cfg raises w)) := by
  rcases tryBlock_cases cfg raises w with h | h | ⟨-, h⟩ | ⟨-, h⟩ <;> rw [h]
  · exact Gives.refl w
  · exact Gives.refl w
  · exact gives_queueBatch cfg raises _
  · exact gives_cacheBatch cfg raises _

theorem keeps_tryBlock (cfg : Config) (hbs : cfg.batchSize ≠ 0) (raises : Site → Bool)
    {w : Writer} (hb : w.batch ⊆ w.committed) : Keeps w [] (settled (tryBlock cfg raises w)) := by
  rcases tryBlock_cases cfg raises w with h | h | ⟨-, h⟩ | ⟨hne, h⟩ <;> rw [h]
  · exact Keeps.refl w
  · exact Keeps.refl w
  · exact (keeps_queueBatch cfg raises (w := { w with conn := true }) hb).of_subset (fun _ h => h) rfl
  · exact (keeps_cacheBatch cfg hbs raises (w := { w with conn := true }) hb hne).of_subset
      (fun _ h => h) rfl

theorem tryBlock_ok_batch {cfg : Config} {raises : Site → Bool} {w w' : Writer}
    (h : tryBlock cfg raises w = .ok w') : w'.batch ⊆ w'.committed := by
  rcases tryBlock_cases cfg raises w with h' | h' | ⟨-, h'⟩ | ⟨-, h'⟩ <;> rw [h'] at h
  · cases h
  · cases h
  · obtain ⟨-, -, -, hok⟩ := queueBatch_cases cfg raises { w with conn := true }
    exact hok w' h
  · exact cacheBatch_ok_batch h

theorem draining_tryBlock {cfg : Config} (hbs : cfg.batchSize ≠ 0) (raises : Site → Bool)
    {w : Writer} (hd : w.draining = true) : (settled (tryBlock cfg raises w)).draining = true := by
  rcases tryBlock_cases cfg raises w with h | h | ⟨-, h⟩ | ⟨hne, h⟩ <;> rw [h]
  · exact hd
  · exact hd
  · obtain ⟨c, -, heq, -⟩ := queueBatch_cases cfg raises { w with conn := true }
    rw [heq]; exact hd
  · exact draining_cacheBatch hbs raises hne

theorem onError_eq (cfg : Config) (stored : Nat → Bool) (w : Writer) :
    onError cfg stored w = drainQueueToCache cfg (fun k => stored (k + 1))
      (if w.batch.isEmpty then { w with conn := false }
       else writeToCache (stored 0) w.batch { w with conn := false, batch := [] }) := by
  unfold onError writeToCache
  dsimp only
  split_ifs <;> rfl

theorem onError_fields (cfg : Config) (stored : Nat → Bool) (w : Writer) :
    (onError cfg stored w).batch = [] ∧ (onError cfg stored w).draining = w.draining := by
  rw [onError_eq]
  split_ifs with he
  · obtain ⟨hb, -, hd⟩ := drainQueueToCache_fields cfg (fun k => stored (k + 1)) { w with conn := false }
    exact ⟨hb.trans (List.isEmpty_iff.1 he), hd⟩
  · obtain ⟨hb, -, hd⟩ := drainQueueToCache_fields cfg (fun k => stored (k + 1))
      (writeToCache (stored 0) w.batch { w with conn := false, batch := [] })
    simp only [batch_writeToCache, draining_writeToCache] at hb hd
    exact ⟨hb, hd⟩

theorem gives_onError (cfg : Config) (stored : Nat → Bool) (w : Writer) :
    Gives w [] (onError cfg stored w) := by
  rw [onError_eq]
  split_ifs
  · exact gives_drainQueueToCache cfg _ _
  · exact ((gives_writeToCache _ _ _).trans (gives_drainQueueToCache cfg _ _)).of_subset fun r => by
      simp only [held, List.mem_append, List.append_nil, List.not_mem_nil]; itauto

theorem keeps_onError (cfg : Config) (stored : Nat → Bool) (w : Writer) :
    Keeps w [] (onError cfg stored w) := by
  rw [onError_eq]
  split_ifs
  · exact (keeps_drainQueueToCache cfg _ _).of_subset (fun _ h => h) rfl
  · exact ((keeps_writeToCache _ _ _).trans (keeps_drainQueueToCache cfg _ _)).of_subset
      (fun r => by simp only [held, List.mem_append, List.append_nil, List.not_mem_nil]; itauto) rfl

theorem gives_workerPass (cfg : Config) (env : PassEnv) (w : Writer) :
    Gives w [] (workerPass cfg env w) := by
  have h₁ := gives_maybeFlushQueueOverflow cfg env.overflowStored w
  have h₂ := gives_tryBlock cfg env.raises (maybeFlushQueueOverflow cfg env.overflowStored w)
  unfold workerPass
  split <;> rename_i w' h <;> rw [h] at h₂
  · exact h₁.trans h₂
  · exact (h₁.trans h₂).trans (gives_onError cfg _ w')

theorem keeps_workerPass (cfg : Config) (hbs : cfg.batchSize ≠ 0) (env : PassEnv) {w : Writer}
    (hb : w.batch ⊆ w.committed) : Keeps w [] (workerPass cfg env w) := by
  have h₁ := keeps_maybeFlushQueueOverflow cfg env.overflowStored w
  obtain ⟨hfb, hfc, -⟩ := maybeFlushQueueOverflow_fields cfg env.overflowStored w
  have h₂ := keeps_tryBlock cfg hbs env.raises (w := maybeFlushQueueOverflow cfg env.overflowStored w)
    (by rw [hfb, hfc]; exact hb)
  unfold workerPass
  split <;> rename_i w' h <;> rw [h] at h₂
  · exact h₁.trans h₂
  · exact (h₁.trans h₂).trans (keeps_onError cfg _ w')

theorem workerPass_batch (cfg : Config) (env : PassEnv) (w : Writer) :
    (workerPass cfg env w).batch ⊆ (workerPass cfg env w).committed := by
  unfold workerPass
  split <;> rename_i w' h
  · exact tryBlock_ok_batch h
  · rw [(onError_fields cfg _ w').1]; exact List.nil_subset _

theorem draining_workerPass {cfg : Config} (hbs : cfg.batchSize ≠ 0) (env : PassEnv) {w : Writer}
    (hd : w.draining = true) : (workerPass cfg env w).draining = true := by
  have h₁ := draining_tryBlock hbs env.raises
    (w := maybeFlushQueueOverflow cfg env.overflowStored w)
    ((maybeFlushQueueOverflow_fields cfg env.overflowStored w).2.2.trans hd)
  unfold workerPass
  split <;> rename_i w' h <;> rw [h] at h₁
  · exact h₁
  · exact (onError_fields cfg _ w').2.trans h₁

/-! ## Shutdown, `close` and `enqueue` -/

theorem gives_shutdownFlush (fails stored : Bool) (w : Writer) :
    Gives w [] (shutdownFlush fails stored w) := by
  unfold shutdownFlush
  dsimp only
  split_ifs
  · intro r; simp only [held, List.mem_append]; itauto
  · intro r; simp only [held, List.mem_append, rowsOf_nil]; itauto
  · show held (writeToCache stored (rowsOf w.q) { w with q := [], conn := false, running := false }) ⊆ _
    exact (gives_writeToCache _ _ _).of_subset fun r => by
      simp only [held, List.mem_append, rowsOf_nil]; itauto

theorem keeps_shutdownFlush (fails stored : Bool) (w : Writer) :
    Keeps w [] (shutdownFlush fails stored w) := by
  unfold shutdownFlush
  dsimp only
  split_ifs with he
  · refine ⟨le_rfl, fun r hr => .inl ?_⟩
    simp only [held, List.mem_append, List.isEmpty_iff.1 he, List.append_nil] at hr ⊢; itauto
  · refine ⟨le_rfl, fun r hr => .inl ?_⟩
    simp only [held, List.mem_append, rowsOf_nil, List.append_nil] at hr ⊢; itauto
  · exact (keeps_writeToCache stored (rowsOf w.q) { w with q := [], conn := false, running := false }).of_subset
      (fun r => by simp only [held, List.mem_append, rowsOf_nil, List.append_nil]; itauto) rfl

theorem shutdownFlush_fields (fails stored : Bool) (w : Writer) :
    (shutdownFlush fails stored w).batch = w.batch ∧
      w.committed ⊆ (shutdownFlush fails stored w).committed ∧
      (shutdownFlush fails stored w).draining = w.draining := by
  unfold shutdownFlush
  dsimp only
  split_ifs <;> simp

theorem held_closeBegin (cfg : Config) (w : Writer) : held (closeBegin cfg w) = held w := by
  unfold closeBegin; split_ifs <;> simp [held]

theorem closeEnd_eq (cfg : Config) (stored : Nat → Bool) (w : Writer) :
    held (closeEnd cfg stored w) = held (if w.q.isEmpty then w else emergencyFlushToDisk cfg stored w) ∧
      (closeEnd cfg stored w).countDropped =
        (if w.q.isEmpty then w else emergencyFlushToDisk cfg stored w).countDropped :=
  ⟨rfl, rfl⟩

theorem gives_closeEnd (cfg : Config) (stored : Nat → Bool) (w : Writer) :
    Gives w [] (closeEnd cfg stored w) := by
  show held _ ⊆ _
  rw [(closeEnd_eq cfg stored w).1]
  split_ifs
  · exact Gives.refl w
  · exact gives_drainQueueToCache cfg stored w

theorem keeps_closeEnd (cfg : Config) (stored : Nat → Bool) (w : Writer) :
    Keeps w [] (closeEnd cfg stored w) := by
  unfold Keeps
  rw [(closeEnd_eq cfg stored w).1, (closeEnd_eq cfg stored w).2]
  split_ifs
  · exact Keeps.refl w
  · exact keeps_drainQueueToCache cfg stored w

theorem gives_enqueue (cfg : Config) (r : Row) (w : Writer) : Gives w [r] (enqueue cfg r w) := by
  intro x
  unfold enqueue
  split_ifs <;> simp only [held, List.mem_append, rowsOf_append, rowsOf_cons, rows_row, rowsOf_nil,
    List.mem_singleton, List.append_nil] <;> itauto

theorem keeps_enqueue (cfg : Config) (r : Row) (w : Writer) : Keeps w [r] (enqueue cfg r w) := by
  unfold enqueue
  split_ifs
  · exact ⟨Nat.le_succ _, fun _ _ => .inr (Nat.lt_succ_self _)⟩
  · refine ⟨le_rfl, fun x hx => .inl ?_⟩
    simp only [held, List.mem_append, rowsOf_append, rowsOf_cons, rows_row, rowsOf_nil] at hx ⊢
    itauto

/-! ## Sessions -/

theorem enqueued_cons (e : Event) (events : List Event) :
    enqueued (e :: events) = enqueued [e] ++ enqueued events := by
  cases e <;> rfl

theorem gives_step (cfg : Config) (w : Writer) (e : Event) :
    Gives w (enqueued [e]) (step cfg w e) := by
  cases e with
  | enqueue r => exact gives_enqueue cfg r w
  | pass env =>
    simp only [step]; split_ifs
    exacts [gives_workerPass cfg env w, Gives.refl w]
  | shutdown fails stored =>
    simp only [step]; split_ifs
    exacts [gives_shutdownFlush fails stored w, Gives.refl w]
  | closeBegin =>
    intro r hr
    rw [show step cfg w .closeBegin = closeBegin cfg w from rfl, held_closeBegin] at hr
    exact List.mem_append_left _ hr
  | closeEnd stored =>
    simp only [step]; split_ifs
    exacts [Gives.refl w, gives_closeEnd cfg stored w]

theorem keeps_step (cfg : Config) (hbs : cfg.batchSize ≠ 0) {w : Writer}
    (hb : w.batch ⊆ w.committed) (e : Event) : Keeps w (enqueued [e]) (step cfg w e) := by
  cases e with
  | enqueue r => exact keeps_enqueue cfg r w
  | pass env =>
    simp only [step]; split_ifs
    exacts [keeps_workerPass cfg hbs env hb, Keeps.refl w]
  | shutdown fails stored =>
    simp only [step]; split_ifs
    exacts [keeps_shutdownFlush fails stored w, Keeps.refl w]
  | closeBegin =>
    rw [show step cfg w .closeBegin = closeBegin cfg w from rfl]
    refine ⟨by unfold closeBegin; split_ifs <;> exact le_rfl, fun r hr => .inl ?_⟩
    rw [held_closeBegin]; simpa [enqueued] using hr
  | closeEnd stored =>
    simp only [step]; split_ifs
    exacts [Keeps.refl w, keeps_closeEnd cfg stored w]

/-- Between steps the worker's `batch` is committed: the invariant that lets a pass overwrite it. -/
theorem step_batch (cfg : Config) {w : Writer} (hb : w.batch ⊆ w.committed) (e : Event) :
    (step cfg w e).batch ⊆ (step cfg w e).committed := by
  cases e with
  | enqueue r => unfold step enqueue; split_ifs <;> exact hb
  | pass env => simp only [step]; split_ifs; exacts [workerPass_batch cfg env w, hb]
  | shutdown fails stored =>
    simp only [step]; split_ifs
    · obtain ⟨h₁, h₂, -⟩ := shutdownFlush_fields fails stored w
      rw [h₁]; exact hb.trans h₂
    · exact hb
  | closeBegin => unfold step closeBegin; split_ifs <;> exact hb
  | closeEnd stored =>
    simp only [step]; split_ifs
    · exact hb
    · unfold closeEnd emergencyFlushToDisk
      split_ifs
      · exact hb
      · obtain ⟨h₁, h₂, -⟩ := drainQueueToCache_fields cfg stored w
        exact h₁ ▸ h₂ ▸ hb

theorem draining_step {cfg : Config} (hbs : cfg.batchSize ≠ 0) {w : Writer} (hd : w.draining = true)
    (e : Event) : (step cfg w e).draining = true := by
  cases e with
  | enqueue r => unfold step enqueue; split_ifs <;> exact hd
  | pass env => simp only [step]; split_ifs; exacts [draining_workerPass hbs env hd, hd]
  | shutdown fails stored =>
    simp only [step]; split_ifs
    exacts [(shutdownFlush_fields fails stored w).2.2.trans hd, hd]
  | closeBegin => unfold step closeBegin; split_ifs <;> exact hd
  | closeEnd stored =>
    simp only [step]; split_ifs
    · exact hd
    · unfold closeEnd emergencyFlushToDisk
      split_ifs
      · exact hd
      · exact (drainQueueToCache_fields cfg stored w).2.2.trans hd

theorem gives_run (cfg : Config) (w : Writer) (events : List Event) :
    Gives w (enqueued events) (run cfg w events) := by
  induction events generalizing w with
  | nil => exact Gives.refl w
  | cons e es ih => rw [enqueued_cons]; exact (gives_step cfg w e).trans (ih _)

theorem keeps_run (cfg : Config) (hbs : cfg.batchSize ≠ 0) (events : List Event) {w : Writer}
    (hb : w.batch ⊆ w.committed) : Keeps w (enqueued events) (run cfg w events) := by
  induction events generalizing w with
  | nil => exact Keeps.refl w
  | cons e es ih =>
    rw [enqueued_cons]; exact (keeps_step cfg hbs hb e).trans (ih (step_batch cfg hb e))

/-- **No row is invented.**  Whatever the configuration, the failures and the order of events, every
row a session holds at the end was in the spill file or the SQL store at start-up, or was handed to
`enqueue`. -/
theorem session_invents_no_row (cfg : Config) (file : SpillFile) (committed : List Row)
    (events : List Event) :
    held (run cfg (Writer.init file committed) events) ⊆
      file.rows.map Prod.snd ++ committed ++ enqueued events :=
  gives_run cfg (Writer.init file committed) events

/-- **No row is lost silently.**  With a `batch_size` other than `0`, whatever the failures and the
order of events, every row in the spill file or the SQL store at start-up and every row handed to
`enqueue` is held at the end of the session, unless `count_dropped` is positive. -/
theorem session_loses_no_row_silently (cfg : Config) (hbs : cfg.batchSize ≠ 0) (file : SpillFile)
    (committed : List Row) (events : List Event) {r : Row}
    (hr : r ∈ file.rows.map Prod.snd ++ committed ++ enqueued events) :
    r ∈ held (run cfg (Writer.init file committed) events) ∨
      0 < (run cfg (Writer.init file committed) events).countDropped :=
  (keeps_run cfg hbs events (w := Writer.init file committed) (List.nil_subset _)).2 r hr

/-- The row of a frame accepted while the store is down is spilled, and still held. -/
theorem session_loses_no_row_silently_outage :
    Config.default.batchSize ≠ 0 ∧
    probeRow 0 0xAA ∈ SpillFile.empty.rows.map Prod.snd ++ [] ++
      enqueued [.enqueue (probeRow 0 0xAA), .pass (.failing .connect)] ∧
    (probeRow 0 0xAA ∈ held (run Config.default (Writer.init SpillFile.empty [])
        [.enqueue (probeRow 0 0xAA), .pass (.failing .connect)]) ∨
      0 < (run Config.default (Writer.init SpillFile.empty [])
        [.enqueue (probeRow 0 0xAA), .pass (.failing .connect)]).countDropped) :=
  have hbs : Config.default.batchSize ≠ 0 := by decide
  have hr : probeRow 0 0xAA ∈ SpillFile.empty.rows.map Prod.snd ++ [] ++
      enqueued [.enqueue (probeRow 0 0xAA), .pass (.failing .connect)] := by simp [enqueued]
  ⟨hbs, hr, session_loses_no_row_silently Config.default hbs SpillFile.empty [] _ hr⟩

/-- **A drain never ends.**  With a `batch_size` other than `0`, the reset that clears
`_draining_cache` needs a read of nothing from a store that holds rows, which cannot happen: once a
drain starts, `_draining_cache` stays set for the rest of the session. -/
theorem run_keeps_draining (cfg : Config) (hbs : cfg.batchSize ≠ 0) (w : Writer)
    (hd : w.draining = true) (events : List Event) : (run cfg w events).draining = true := by
  induction events generalizing w with
  | nil => exact hd
  | cons e es ih => exact ih _ (draining_step hbs hd e)

/-- The drain of one spilled row: `_draining_cache` stays set through a queued row's commit. -/
theorem run_keeps_draining_after_drain :
    Config.default.batchSize ≠ 0 ∧
    (run Config.default (Writer.init (SpillFile.ofRows [probeRow 0 0xAA]) []) [.pass .ok]).draining =
      true ∧
    (run Config.default (run Config.default (Writer.init (SpillFile.ofRows [probeRow 0 0xAA]) [])
      [.pass .ok]) [.enqueue (probeRow 1 0xBB), .pass .ok]).draining = true :=
  have hbs : Config.default.batchSize ≠ 0 := by decide
  have hd : (run Config.default (Writer.init (SpillFile.ofRows [probeRow 0 0xAA]) [])
      [.pass .ok]).draining = true := by decide
  ⟨hbs, hd, run_keeps_draining Config.default hbs _ hd _⟩

end WireTap.Ingest.Conservation
