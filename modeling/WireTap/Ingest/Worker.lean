import WireTap.Ingest.Spill

/-! # The ingest writer

`PostgresWriter` moves rows from producers to the SQL store through a bounded queue, with the disk
spill store (`DiskCache`) as a fallback.  Producers call `enqueue`; one worker thread runs
`_worker`'s loop, and `close` stops it.  A pass of the loop is

* `_maybe_flush_queue_overflow`: past `queue_flush_pct` of `maxsize`, the queue goes to the spill
  store;
* a `try` block (`tryBlock`): connect if needed; while the spill store is not empty, read a batch of
  `batch_size` rows from it, commit them and delete them (`cacheBatch`), resetting the store when
  the read returns nothing; otherwise take a batch off the queue and commit it (`queueBatch`);
* on any exception, the handler (`onError`) closes the connection, writes the worker's `batch` to
  the spill store and drains the queue there.

`batch` is a local of `_worker` that survives from one pass to the next, so the model keeps it in
the state.  When `_alive` is false the worker leaves the loop through `_shutdown_flush`.

The environment is explicit: `PassEnv` says which calls of a pass raise and which spill writes
store their rows (`is_full()` false and `write_batch` returning).  A pass, a producer's `enqueue`
and each half of `close` are the atomic steps of a session (`step`, `run`); the spill file and the
SQL store outlive it (`session`, `sessions`). -/

namespace WireTap.Ingest.Worker

open WireTap.Ingest.Enqueue WireTap.Ingest.Spill

/-- The settings the worker reads: `batch_size`, the queue's `maxsize` and `queue_flush_pct`, each
an `int` from the command line. -/
structure Config where
  batchSize : Int
  queueMax : Int
  queueFlushPct : Int
  deriving DecidableEq, Repr

/-- The defaults of `PostgresWriter.__init__`: `batch_size=500`, `queue_max=50000`,
`queue_flush_pct=50`. -/
def Config.default : Config := ⟨500, 50000, 50⟩

/-- An item of `self.q`: a row, or the `()` that `close` puts to wake the worker. -/
inductive Item
  | row (r : Row)
  | wake
  deriving DecidableEq, Repr

/-- The rows an item gives `if item and len(item) == 9`. -/
def Item.rows : Item → List Row
  | .row r => [r]
  | .wake => []

/-- The rows among queue items. -/
def rowsOf (items : List Item) : List Row := items.flatMap Item.rows

/-- **The writer and the stores it writes to**: the fields of `PostgresWriter` the worker reads
(`q`, `_conn`, `_disk_cache`, `_draining_cache`, `_alive` and the counters), the worker's local
`batch`, whether the worker thread still runs, and the rows committed to the SQL store. -/
structure Writer where
  q : List Item
  batch : List Row
  cache : DiskCache
  conn : Bool
  draining : Bool
  alive : Bool
  running : Bool
  committed : List Row
  countEnqueued : Nat
  countWritten : Nat
  countDropped : Nat
  deriving DecidableEq, Repr

/-- `PostgresWriter(...)` on a spill file `file` and an SQL store holding `committed`. -/
def Writer.init (file : SpillFile) (committed : List Row) : Writer :=
  ⟨[], [], DiskCache.open file, false, false, true, true, committed, 0, 0, 0⟩

section Steps

variable (cfg : Config)

/-- `Queue.full()`: a queue with a positive `maxsize` holding that many items. -/
def queueFull (q : List Item) : Bool := 0 < cfg.queueMax && cfg.queueMax ≤ q.length

/-- **`enqueue`**, from `self.q.put_nowait(row)` on: the row is queued and counted, or, on `Full`,
dropped and counted. -/
def enqueue (r : Row) (w : Writer) : Writer :=
  if queueFull cfg w.q then { w with countDropped := w.countDropped + 1 }
  else { w with q := w.q ++ [.row r], countEnqueued := w.countEnqueued + 1 }

/-- **`_write_to_cache(batch)`**.  `stored` is the environment's answer: the file is below
`max_bytes` and `write_batch` returns.  On a closed cache `write_batch` raises.  Rows that are not
stored are dropped and counted. -/
def writeToCache (stored : Bool) (rows : List Row) (w : Writer) : Writer :=
  if stored && !w.cache.closed then { w with cache := writeBatch rows w.cache }
  else { w with countDropped := w.countDropped + rows.length }

/-- The writes of `_drain_queue_to_cache`'s loop: it gathers the rows of the items it takes in
`batch`, writes `batch` once `len(batch) >= batch_size`, and writes what is left at the end. -/
def drainChunks (bs : Int) : List Row → List Item → List (List Row)
  | [], [] => []
  | batch, [] => [batch]
  | batch, .wake :: items => drainChunks bs batch items
  | batch, .row r :: items =>
    if bs ≤ ((batch ++ [r]).length : Int) then (batch ++ [r]) :: drainChunks bs [] items
    else drainChunks bs (batch ++ [r]) items

/-- A sequence of `_write_to_cache` calls, the `k`-th storing its rows when `stored k`. -/
def writeChunks (stored : Nat → Bool) : Nat → List (List Row) → Writer → Writer
  | _, [], w => w
  | k, c :: cs, w => writeChunks stored (k + 1) cs (writeToCache (stored k) c w)

/-- **`_drain_queue_to_cache`**: take every item off the queue and write its rows in chunks. -/
def drainQueueToCache (stored : Nat → Bool) (w : Writer) : Writer :=
  writeChunks stored 0 (drainChunks cfg.batchSize [] w.q) { w with q := [] }

/-- **`_emergency_flush_to_disk`**: the loop of `_drain_queue_to_cache`, run by `close`. -/
def emergencyFlushToDisk (stored : Nat → Bool) (w : Writer) : Writer :=
  drainQueueToCache cfg stored w

/-- `size / cap >= queue_flush_pct / 100` with the divisions cleared (`cap = 0` returns early). -/
def overThreshold (cap pct : Int) (size : Nat) : Bool :=
  if 0 < cap then pct * cap ≤ 100 * size else if cap < 0 then 100 * size ≤ pct * cap else false

/-- **`_maybe_flush_queue_overflow`**. -/
def maybeFlushQueueOverflow (stored : Nat → Bool) (w : Writer) : Writer :=
  if overThreshold cfg.queueMax cfg.queueFlushPct w.q.length then drainQueueToCache cfg stored w
  else w

/-- The calls of `_worker`'s `try` block that can raise. -/
inductive Site
  /-- `self._connect()` -/
  | connect
  /-- `self._disk_cache.is_empty()` -/
  | isEmpty
  /-- `self._disk_cache.read_batch(self.batch_size)` -/
  | readBatch
  /-- `execute_values` on a batch read from the spill store -/
  | executeCached
  /-- the `commit` after it -/
  | commitCached
  /-- `self._disk_cache.delete_batch(ids)` -/
  | deleteBatch
  /-- the `commit` that keeps the transaction fresh when the queue gave nothing -/
  | keepFresh
  /-- `execute_values` on a batch taken from the queue -/
  | executeBatch
  /-- the `commit` after it -/
  | commitBatch
  deriving DecidableEq, Repr

/-- `self.q.get(timeout=...)`: the rows of the first item, if the queue has one. -/
def getFirst : List Item → List Row × List Item
  | [] => ([], [])
  | item :: items => (item.rows, items)

/-- `while len(batch) < self.batch_size: item = self.q.get_nowait() ...`. -/
def getMore (bs : Int) : List Row → List Item → List Row × List Item
  | batch, [] => (batch, [])
  | batch, item :: items =>
    if (batch.length : Int) < bs then getMore bs (batch ++ item.rows) items else (batch, item :: items)

/-- The batch priority 2 takes off the queue, and the items it leaves. -/
def takeBatch (q : List Item) : List Row × List Item :=
  getMore cfg.batchSize (getFirst q).1 (getFirst q).2

/-- **Priority 2** of `_worker`: take a batch off the queue and commit it.  `.error w` is the state
in which a call raises. -/
def queueBatch (raises : Site → Bool) (w : Writer) : Except Writer Writer :=
  let w := { w with q := (takeBatch cfg w.q).2, batch := (takeBatch cfg w.q).1 }
  if w.batch.isEmpty then (if raises .keepFresh then .error w else .ok w)
  else if raises .executeBatch || raises .commitBatch then .error w
  else .ok { w with committed := w.committed ++ w.batch, countWritten := w.countWritten + w.batch.length }

/-- The reset after a read that returned nothing: `_draining_cache = False`, `close`,
`delete_file`, and a new `DiskCache` on the path, whose file is new. -/
def resetCache (w : Writer) : Writer :=
  { w with draining := false, cache := DiskCache.open SpillFile.empty }

/-- **Priority 1** of `_worker`, on a spill store that is not empty: read a batch, commit it and
delete it (then `continue`), or, when the read returns nothing, reset the store and go on to
priority 2. -/
def cacheBatch (raises : Site → Bool) (w : Writer) : Except Writer Writer :=
  let w := { w with draining := true }
  if raises .readBatch then .error w
  else
    let w := { w with batch := (readBatch cfg.batchSize w.cache).2 }
    if w.batch.isEmpty then queueBatch cfg raises (resetCache w)
    else if raises .executeCached || raises .commitCached then .error w
    else
      let w := { w with committed := w.committed ++ w.batch }
      if raises .deleteBatch then .error w
      else
        let ids := (readBatch cfg.batchSize w.cache).1
        .ok { w with cache := deleteBatch ids w.cache, countWritten := w.countWritten + w.batch.length }

/-- **The `try` block of `_worker`'s loop**, after `_maybe_flush_queue_overflow`. -/
def tryBlock (raises : Site → Bool) (w : Writer) : Except Writer Writer :=
  if !w.conn && raises .connect then .error w
  else
    let w := { w with conn := true }
    if raises .isEmpty then .error w
    else if isEmpty w.cache then queueBatch cfg raises w
    else cacheBatch cfg raises w

/-- **The `except` block of `_worker`'s loop**: `_close_conn`, write the pending `batch` to the
spill store, then `_drain_queue_to_cache`. -/
def onError (stored : Nat → Bool) (w : Writer) : Writer :=
  let w := { w with conn := false }
  let w := if w.batch.isEmpty then w else { (writeToCache (stored 0) w.batch w) with batch := [] }
  drainQueueToCache cfg (fun k => stored (k + 1)) w

/-- What the environment does in one pass: the calls that raise, and which spill writes of
`_maybe_flush_queue_overflow` and of the handler store their rows. -/
structure PassEnv where
  raises : Site → Bool
  overflowStored : Nat → Bool
  errorStored : Nat → Bool

/-- A pass in which no call raises and every spill write stores its rows. -/
def PassEnv.ok : PassEnv := ⟨fun _ => false, fun _ => true, fun _ => true⟩

/-- A pass in which only the call at `s` raises. -/
def PassEnv.failing (s : Site) : PassEnv := ⟨fun t => t == s, fun _ => true, fun _ => true⟩

/-- **One pass of `while self._alive:`** in `_worker`. -/
def workerPass (env : PassEnv) (w : Writer) : Writer :=
  match tryBlock cfg env.raises (maybeFlushQueueOverflow cfg env.overflowStored w) with
  | .ok w => w
  | .error w => onError cfg env.errorStored w

/-- **`_shutdown_flush`**, when the worker leaves its loop: the queued rows go to the SQL store if
the connection is up and `execute_values` and `commit` return (`fails` false); otherwise to the
spill store, which is then closed. -/
def shutdownFlush (fails stored : Bool) (w : Writer) : Writer :=
  let remaining := rowsOf w.q
  let w' := { w with q := [], conn := false, running := false }
  if remaining.isEmpty then w'
  else if w.conn && !fails then
    { w' with committed := w.committed ++ remaining, countWritten := w.countWritten + remaining.length }
  else
    let w' := writeToCache stored remaining w'
    { w' with cache := close w'.cache }

/-- **`close`, up to `join`**: `_alive = False`, then `put_nowait(())`, which a full queue refuses. -/
def closeBegin (w : Writer) : Writer :=
  if queueFull cfg w.q then { w with alive := false }
  else { w with alive := false, q := w.q ++ [.wake] }

/-- **`close`, after `join`**: the emergency flush if the queue is not empty, then the cache is
closed. -/
def closeEnd (stored : Nat → Bool) (w : Writer) : Writer :=
  let w := if w.q.isEmpty then w else emergencyFlushToDisk cfg stored w
  { w with cache := close w.cache }

/-- What can happen next in a session: a producer's `enqueue`, a pass of the worker's loop, the
worker leaving its loop, or one half of `close`. -/
inductive Event
  | enqueue (r : Row)
  | pass (env : PassEnv)
  | shutdown (fails stored : Bool)
  | closeBegin
  | closeEnd (stored : Nat → Bool)

/-- **One step of a session.**  The worker makes passes while `_alive` and leaves its loop once it
is not; `close` finishes only after it began. -/
def step (w : Writer) : Event → Writer
  | .enqueue r => enqueue cfg r w
  | .pass env => if w.running && w.alive then workerPass cfg env w else w
  | .shutdown fails stored => if w.running && !w.alive then shutdownFlush fails stored w else w
  | .closeBegin => closeBegin cfg w
  | .closeEnd stored => if w.alive then w else closeEnd cfg stored w

/-- A session's steps, in order. -/
def run (w : Writer) (events : List Event) : Writer := events.foldl (step cfg) w

end Steps

/-- The row `enqueue` builds for the one-byte classic frame `0x100 [b]` received at time `ts` on
bus 0. -/
def probeRow (ts : Nat) (b : UInt8) : Row := enqueueRow "rx" ts 0x100 1 [b] 0 none false

/-- A failure of `execute_values` while a batch read from the spill store is in hand.  The row
`enqueue` accepted is spilled when the connect fails; the next pass reads it back and fails, and the
handler writes the batch to the store next to the row it was read from; the pass after that
commits both copies. -/
theorem run_commits_spilled_row_twice :
    (run Config.default (Writer.init SpillFile.empty [])
      [.enqueue (probeRow 0 0xAA), .pass (.failing .connect),
        .pass (.failing .executeCached)]).cache.rows = [probeRow 0 0xAA, probeRow 0 0xAA] ∧
    (fun w : Writer => (w.countEnqueued, w.committed)) (run Config.default (Writer.init SpillFile.empty [])
      [.enqueue (probeRow 0 0xAA), .pass (.failing .connect), .pass (.failing .executeCached),
        .pass .ok]) = (1, [probeRow 0 0xAA, probeRow 0 0xAA]) := by
  decide

/-- With `batch_size = 0`, `read_batch` returns nothing from a store that holds a row, and the reset
deletes the file with the row in it: the row is neither committed nor counted as dropped.  With the
default `batch_size`, the pass that commits the last spilled row ends with `continue`; the next pass
finds the store empty, skips the branch that holds the reset, and commits a batch from the queue
while `_draining_cache` is still `True` and the old file, with its next id `2`, is kept. -/
theorem run_resets_spill_store_off_drain :
    run ⟨0, 50000, 50⟩ (Writer.init (SpillFile.ofRows [probeRow 0 0xAA]) []) [.pass .ok] =
      { Writer.init SpillFile.empty [] with conn := true } ∧
    (fun w : Writer => (w.committed, w.draining, w.cache.file.rows, w.cache.file.nextId))
      (run Config.default (Writer.init (SpillFile.ofRows [probeRow 0 0xAA]) [])
        [.pass .ok, .enqueue (probeRow 1 0xBB), .pass .ok]) =
      ([probeRow 0 0xAA, probeRow 1 0xBB], true, [], 2) := by
  decide

/-- What outlives a session: the spill file and the SQL store. -/
structure Stores where
  file : SpillFile
  committed : List Row
  deriving DecidableEq, Repr

/-- **A session**: a `PostgresWriter` on the stores, the events of its life, and the stores it
leaves behind. -/
def session (cfg : Config) (events : List Event) (s : Stores) : Stores :=
  ⟨(run cfg (Writer.init s.file s.committed) events).cache.file,
    (run cfg (Writer.init s.file s.committed) events).committed⟩

/-- Successive sessions on the same stores. -/
def sessions : Stores → List (Config × List Event) → Stores
  | s, [] => s
  | s, (cfg, events) :: rest => sessions (session cfg events s) rest

/-- Three sessions with `batch_size = 1`.  In the first the store is down: the rows at times 0 and 1
are spilled and `close` finds nothing left.  The second drains the first row, then the row at time 2
is enqueued and `close` arrives: `_shutdown_flush` commits it while the row at time 1 is still in
the spill store.  The third session commits that row last. -/
theorem sessions_commit_out_of_order :
    (sessions ⟨SpillFile.empty, []⟩
      [(⟨1, 50000, 50⟩, [.enqueue (probeRow 0 0x0A), .enqueue (probeRow 1 0x0B),
          .pass (.failing .connect), .closeBegin, .shutdown true true, .closeEnd fun _ => true]),
        (⟨1, 50000, 50⟩, [.pass .ok, .enqueue (probeRow 2 0x0C), .closeBegin, .shutdown false true,
          .closeEnd fun _ => true]),
        (⟨1, 50000, 50⟩, [.pass .ok])]).committed =
      [probeRow 0 0x0A, probeRow 2 0x0C, probeRow 1 0x0B] := by
  decide

end WireTap.Ingest.Worker
