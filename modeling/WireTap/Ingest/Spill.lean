import Mathlib.Data.List.Nodup
import WireTap.Ingest.Enqueue

/-! # The disk spill store

`DiskCache` keeps the rows the writer could not commit in the SQLite table `frames`, whose `id` is
`INTEGER PRIMARY KEY AUTOINCREMENT`.  The table lives in a file that outlives the process, so a
new `PostgresWriter` on the same path finds the rows of the previous session.

* `write_batch` appends rows with fresh, increasing ids;
* `read_batch(limit)` is `SELECT ... ORDER BY id LIMIT ?`, where SQLite reads a negative limit as
  "no limit" and a limit of `0` as "no rows" (`limitRows`);
* `delete_batch(ids)` deletes the rows whose id is listed;
* `close` closes the connection; `delete_file` removes the file, and the `DiskCache` built on the
  same path afterwards starts a new, empty table whose ids start again at `1`.

Rows are stored in id order, so the table is a list.  `id` is the primary key, so the ids of a file
are distinct, and `AUTOINCREMENT` keeps them below the next id: `SpillFile` carries both facts, and
they are what lets `delete_batch` with the ids of a read delete exactly the rows read
(`mem_deleteBatch_or_read`).  The timestamp conversion of `write_batch` and `read_batch` (a
`datetime` to a float and back) is the identity on the model's opaque timestamps. -/

namespace WireTap.Ingest.Spill

open WireTap.Ingest.Enqueue

/-- The rows with the ids `AUTOINCREMENT` gives them, from `start` on. -/
def withIds (start : Nat) : List Row → List (Nat × Row)
  | [] => []
  | r :: rs => (start, r) :: withIds (start + 1) rs

theorem map_fst_withIds (n : Nat) (rows : List Row) :
    (withIds n rows).map Prod.fst = List.range' n rows.length := by
  induction rows generalizing n with
  | nil => rfl
  | cons r rs ih => simp only [withIds, List.map_cons, ih, List.length_cons, List.range'_succ]

theorem map_snd_withIds (n : Nat) (rows : List Row) : (withIds n rows).map Prod.snd = rows := by
  induction rows generalizing n with
  | nil => rfl
  | cons r rs ih => simp only [withIds, List.map_cons, ih]

theorem nodup_append_withIds {rows : List (Nat × Row)} {n : Nat} (h : (rows.map Prod.fst).Nodup)
    (hlt : ∀ p ∈ rows, p.1 < n) (new : List Row) :
    ((rows ++ withIds n new).map Prod.fst).Nodup := by
  rw [List.map_append, map_fst_withIds]
  refine List.nodup_append.2 ⟨h, List.nodup_range' _ _, fun a ha hb => ?_⟩
  obtain ⟨p, hp, rfl⟩ := List.mem_map.1 ha
  have := hlt p hp
  simp only [List.mem_range'_1] at hb
  omega

theorem lt_append_withIds {rows : List (Nat × Row)} {n : Nat} (hlt : ∀ p ∈ rows, p.1 < n)
    (new : List Row) : ∀ p ∈ rows ++ withIds n new, p.1 < n + new.length := by
  intro p hp
  rcases List.mem_append.1 hp with hp | hp
  · have := hlt p hp; omega
  · have hid : p.1 ∈ (withIds n new).map Prod.fst := List.mem_map_of_mem _ hp
    simp only [map_fst_withIds, List.mem_range'_1] at hid
    omega

/-- **The table `frames` of a spill file**: its rows in id order and the next `AUTOINCREMENT` id,
with distinct ids below it. -/
structure SpillFile where
  rows : List (Nat × Row)
  nextId : Nat
  nodup : (rows.map Prod.fst).Nodup
  lt_nextId : ∀ p ∈ rows, p.1 < nextId
  deriving DecidableEq, Repr

/-- The table of a newly created file. -/
def SpillFile.empty : SpillFile := ⟨[], 1, List.nodup_nil, fun _ h => absurd h (List.not_mem_nil _)⟩

/-- The table after `write_batch(rows)` on `f`. -/
def SpillFile.append (f : SpillFile) (rows : List Row) : SpillFile :=
  ⟨f.rows ++ withIds f.nextId rows, f.nextId + rows.length, nodup_append_withIds f.nodup f.lt_nextId rows,
    lt_append_withIds f.lt_nextId rows⟩

/-- A new file into which `rows` were written. -/
def SpillFile.ofRows (rows : List Row) : SpillFile := SpillFile.empty.append rows

/-- **A `DiskCache`**: the file it has open, and `self._closed`. -/
structure DiskCache where
  file : SpillFile
  closed : Bool
  deriving DecidableEq, Repr

/-- `DiskCache(path)` on a file that holds `file`. -/
def DiskCache.open (file : SpillFile) : DiskCache := ⟨file, false⟩

/-- **`write_batch`**: `INSERT` every row, then `commit`. -/
def writeBatch (rows : List Row) (c : DiskCache) : DiskCache := { c with file := c.file.append rows }

/-- `LIMIT ?` as SQLite applies it: a negative limit is no limit. -/
def limitRows {α : Type} (limit : Int) (rows : List α) : List α :=
  if limit < 0 then rows else rows.take limit.toNat

/-- **`read_batch(limit)`**: the ids and rows of the oldest `limit` entries. -/
def readBatch (limit : Int) (c : DiskCache) : List Nat × List Row :=
  ((limitRows limit c.file.rows).map Prod.fst, (limitRows limit c.file.rows).map Prod.snd)

/-- **`delete_batch(ids)`**: `DELETE FROM frames WHERE id IN (ids)`. -/
def deleteBatch (ids : List Nat) (c : DiskCache) : DiskCache :=
  { c with file := ⟨c.file.rows.filter (fun p => p.1 ∉ ids), c.file.nextId,
      c.file.nodup.sublist ((List.filter_sublist _).map _),
      fun p hp => c.file.lt_nextId p (List.mem_of_mem_filter hp)⟩ }

/-- `is_empty`. -/
def isEmpty (c : DiskCache) : Bool := c.file.rows.isEmpty

/-- `close`. -/
def close (c : DiskCache) : DiskCache := { c with closed := true }

/-- The rows of the table. -/
def DiskCache.rows (c : DiskCache) : List Row := c.file.rows.map Prod.snd

@[simp] theorem rows_writeBatch (rows : List Row) (c : DiskCache) :
    (writeBatch rows c).rows = c.rows ++ rows := by
  simp [writeBatch, SpillFile.append, DiskCache.rows, map_snd_withIds]

@[simp] theorem closed_writeBatch (rows : List Row) (c : DiskCache) :
    (writeBatch rows c).closed = c.closed := rfl

@[simp] theorem rows_close (c : DiskCache) : (close c).rows = c.rows := rfl

@[simp] theorem closed_close (c : DiskCache) : (close c).closed = true := rfl

@[simp] theorem rows_open (file : SpillFile) : (DiskCache.open file).rows = file.rows.map Prod.snd :=
  rfl

@[simp] theorem rows_empty : SpillFile.empty.rows = [] := rfl

theorem isEmpty_iff (c : DiskCache) : isEmpty c = true ↔ c.rows = [] := by
  simp [isEmpty, DiskCache.rows]

theorem limitRows_subset {α : Type} (limit : Int) (rows : List α) : limitRows limit rows ⊆ rows := by
  unfold limitRows
  split_ifs
  · exact List.Subset.refl _
  · exact List.take_subset _ _

theorem readBatch_rows (limit : Int) (c : DiskCache) :
    (readBatch limit c).2 = limitRows limit c.rows := by
  unfold readBatch limitRows DiskCache.rows
  split_ifs <;> simp [List.map_take]

theorem readBatch_subset (limit : Int) (c : DiskCache) : (readBatch limit c).2 ⊆ c.rows := by
  rw [readBatch_rows]; exact limitRows_subset _ _

theorem readBatch_eq_nil {limit : Int} {c : DiskCache} (h : (readBatch limit c).2 = []) :
    c.rows = [] ∨ limit = 0 := by
  rw [readBatch_rows, limitRows] at h
  split_ifs at h with hl
  · exact .inl h
  · rcases List.take_eq_nil_iff.mp h with h | h
    · exact .inr (by omega)
    · exact .inl h

/-- **Deleting what was read**: a row of the table survives `delete_batch` with the ids of a read,
or it was one of the rows read. -/
theorem mem_deleteBatch_or_read (c : DiskCache) (limit : Int) {r : Row} (hr : r ∈ c.rows) :
    r ∈ (deleteBatch (readBatch limit c).1 c).rows ∨ r ∈ (readBatch limit c).2 := by
  obtain ⟨p, hp, rfl⟩ := List.mem_map.1 hr
  by_cases hid : p.1 ∈ (readBatch limit c).1
  · obtain ⟨q, hq, hqp⟩ := List.mem_map.1 hid
    have : q = p := List.inj_on_of_nodup_map c.file.nodup (limitRows_subset _ _ hq) hp hqp
    exact .inr (List.mem_map.2 ⟨q, hq, by rw [this]⟩)
  · exact .inl (List.mem_map_of_mem _ (List.mem_filter.2 ⟨hp, by simpa using hid⟩))

theorem deleteBatch_subset (ids : List Nat) (c : DiskCache) : (deleteBatch ids c).rows ⊆ c.rows :=
  fun _ hr => by
    obtain ⟨p, hp, rfl⟩ := List.mem_map.1 hr
    exact List.mem_map_of_mem _ (List.mem_of_mem_filter hp)

end WireTap.Ingest.Spill
