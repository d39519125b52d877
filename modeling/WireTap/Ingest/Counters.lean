import WireTap.Ingest.Conservation

/-! # What `count_written` counts

`count_written` is raised by the length of every batch the worker commits: a batch taken off the
queue, a batch read back from the spill store, and the rows `_shutdown_flush` commits.  The SQL
store is only ever appended to.  The one commit the counter misses is that of a spill batch whose
`delete_batch` raises after the commit: the handler runs before `count_written += len(batch)`.

`Counted w w' lag` says that `w'` committed what `w` had and then the rows `new`, and that
`count_written` grew by `len(new) - lag`.  Spill writes, `enqueue` and `close` leave both alone;
every operation of a pass is counted with lag `0`, except the commit before a failing `delete_batch`
(`cacheBatch_counted`).  Over whole sessions:

* the counter never counts a row that was not committed, and never goes down
  (`run_never_overcounts`);
* when no `delete_batch` raises, it counts every row committed (`run_counts_every_commit`).
-/

namespace WireTap.Ingest.Counters

open WireTap.Ingest.Enqueue WireTap.Ingest.Spill WireTap.Ingest.Worker WireTap.Ingest.Conservation

/-- `w'` has committed the rows `w` had, then rows `new`, and `count_written` grew by `len(new)`
less `lag`. -/
def Counted (w w' : Writer) (lag : Nat) : Prop :=
  ∃ new, w'.committed = w.committed ++ new ∧ lag ≤ new.length ∧
    w'.countWritten + lag = w.countWritten + new.length

section Counted

variable {w w' w₁ w₂ w₃ : Writer} {a b : Nat}

theorem Counted.of_eq (hc : w'.committed = w.committed) (hn : w'.countWritten = w.countWritten) :
    Counted w w' 0 :=
  ⟨[], by rw [hc, List.append_nil], Nat.zero_le _, by rw [hn]; rfl⟩

theorem Counted.trans : Counted w₁ w₂ a → Counted w₂ w₃ b → Counted w₁ w₃ (a + b)
  | ⟨n₁, hc₁, hl₁, hn₁⟩, ⟨n₂, hc₂, hl₂, hn₂⟩ =>
    ⟨n₁ ++ n₂, by rw [hc₂, hc₁, List.append_assoc], by simp only [List.length_append]; omega,
      by simp only [List.length_append]; omega⟩

end Counted

/-! ## Spill writes -/

@[simp] theorem countWritten_writeToCache (s : Bool) (rows : List Row) (w : Writer) :
    (writeToCache s rows w).countWritten = w.countWritten := by
  unfold writeToCache; split_ifs <;> rfl

theorem counted_writeToCache (s : Bool) (rows : List Row) (w : Writer) :
    Counted w (writeToCache s rows w) 0 :=
  .of_eq (committed_writeToCache s rows w) (countWritten_writeToCache s rows w)

theorem counted_writeChunks (stored : Nat → Bool) (k : Nat) (cs : List (List Row)) (w : Writer) :
    Counted w (writeChunks stored k cs w) 0 := by
  induction cs generalizing k w with
  | nil => exact .of_eq rfl rfl
  | cons c cs ih => exact (counted_writeToCache _ c w).trans (ih (k + 1) _)

theorem counted_drainQueueToCache (cfg : Config) (stored : Nat → Bool) (w : Writer) :
    Counted w (drainQueueToCache cfg stored w) 0 :=
  counted_writeChunks stored 0 _ { w with q := [] }

theorem counted_maybeFlushQueueOverflow (cfg : Config) (stored : Nat → Bool) (w : Writer) :
    Counted w (maybeFlushQueueOverflow cfg stored w) 0 := by
  unfold maybeFlushQueueOverflow
  split_ifs
  · exact counted_drainQueueToCache cfg stored w
  · exact .of_eq rfl rfl

theorem counted_onError (cfg : Config) (stored : Nat → Bool) (w : Writer) :
    Counted w (onError cfg stored w) 0 := by
  rw [onError_eq]
  split_ifs
  · exact counted_drainQueueToCache cfg _ { w with conn := false }
  · exact (counted_writeToCache _ _ { w with conn := false, batch := [] }).trans
      (counted_drainQueueToCache cfg _ _)

/-! ## A pass -/

/-- A pass counts all it commits, unless `delete_batch` raises. -/
def CountedUnless (raises : Site → Bool) (w w' : Writer) : Prop :=
  ∃ lag, Counted w w' lag ∧ (raises .deleteBatch = false → lag = 0)

theorem countedUnless_of_counted {raises : Site → Bool} {w w' : Writer} (h : Counted w w' 0) :
    CountedUnless raises w w' :=
  ⟨0, h, fun _ => rfl⟩

theorem CountedUnless.trans {raises : Site → Bool} {w₁ w₂ w₃ : Writer} :
    CountedUnless raises w₁ w₂ → CountedUnless raises w₂ w₃ → CountedUnless raises w₁ w₃
  | ⟨a, h₁, ha⟩, ⟨b, h₂, hb⟩ => ⟨a + b, h₁.trans h₂, fun h => by rw [ha h, hb h]⟩

theorem counted_queueBatch (cfg : Config) (raises : Site → Bool) (w : Writer) :
    Counted w (settled (queueBatch cfg raises w)) 0 := by
  obtain ⟨c, -, heq, -⟩ := queueBatch_cases cfg raises w
  rw [heq]
  exact ⟨c, rfl, Nat.zero_le _, rfl⟩

/-- **Priority 1**: every way it ends is counted, except the commit before a raising
`delete_batch`, which commits the batch read and leaves `count_written` as it was. -/
theorem cacheBatch_counted (cfg : Config) (raises : Site → Bool) (w : Writer) :
    CountedUnless raises w (settled (cacheBatch cfg raises w)) := by
  unfold cacheBatch
  dsimp only
  split_ifs with hread hnil hexec hdel
  · exact countedUnless_of_counted (.of_eq rfl rfl)
  · exact countedUnless_of_counted (counted_queueBatch cfg raises _)
  · exact countedUnless_of_counted (.of_eq rfl rfl)
  · exact ⟨_, ⟨_, rfl, le_rfl, rfl⟩, fun h => absurd hdel (by rw [h]; decide)⟩
  · exact countedUnless_of_counted ⟨_, rfl, Nat.zero_le _, rfl⟩

theorem tryBlock_counted (cfg : Config) (raises : Site → Bool) (w : Writer) :
    CountedUnless raises w (settled (tryBlock cfg raises w)) := by
  rcases tryBlock_cases cfg raises w with h | h | ⟨-, h⟩ | ⟨-, h⟩ <;> rw [h]
  · exact countedUnless_of_counted (.of_eq rfl rfl)
  · exact countedUnless_of_counted (.of_eq rfl rfl)
  · exact countedUnless_of_counted (counted_queueBatch cfg raises { w with conn := true })
  · exact cacheBatch_counted cfg raises { w with conn := true }

theorem workerPass_counted (cfg : Config) (env : PassEnv) (w : Writer) :
    CountedUnless env.raises w (workerPass cfg env w) := by
  have h₁ : CountedUnless env.raises w _ :=
    countedUnless_of_counted (counted_maybeFlushQueueOverflow cfg env.overflowStored w)
  have h₂ := tryBlock_counted cfg env.raises (maybeFlushQueueOverflow cfg env.overflowStored w)
  unfold workerPass
  split <;> rename_i w' h <;> rw [h] at h₂
  · exact h₁.trans h₂
  · exact (h₁.trans h₂).trans (countedUnless_of_counted (counted_onError cfg _ w'))

/-! ## Sessions -/

theorem counted_shutdownFlush (fails stored : Bool) (w : Writer) :
    Counted w (shutdownFlush fails stored w) 0 := by
  unfold shutdownFlush
  dsimp only
  split_ifs
  · exact .of_eq rfl rfl
  · exact ⟨_, rfl, Nat.zero_le _, rfl⟩
  · exact counted_writeToCache _ _ { w with q := [], conn := false, running := false }

theorem counted_closeEnd (cfg : Config) (stored : Nat → Bool) (w : Writer) :
    Counted w (closeEnd cfg stored w) 0 := by
  unfold closeEnd emergencyFlushToDisk
  split_ifs
  · exact .of_eq rfl rfl
  · exact counted_drainQueueToCache cfg stored w

/-- The event is not a pass in which `delete_batch` raises. -/
def NoDeleteFailure : Event → Prop
  | .pass env => env.raises .deleteBatch = false
  | _ => True

instance : DecidablePred NoDeleteFailure := fun
  | .pass env => inferInstanceAs (Decidable (env.raises .deleteBatch = false))
  | .enqueue _ | .shutdown _ _ | .closeBegin | .closeEnd _ => isTrue trivial

/-- **One step** commits by appends and counts every row it commits, except the commit of a pass
whose `delete_batch` raises. -/
theorem step_counted (cfg : Config) (w : Writer) (e : Event) :
    ∃ lag, Counted w (step cfg w e) lag ∧ (NoDeleteFailure e → lag = 0) := by
  cases e with
  | enqueue r => exact ⟨0, by unfold step enqueue; split_ifs <;> exact .of_eq rfl rfl, fun _ => rfl⟩
  | pass env =>
    simp only [step]
    split_ifs
    · exact workerPass_counted cfg env w
    · exact ⟨0, .of_eq rfl rfl, fun _ => rfl⟩
  | shutdown fails stored =>
    refine ⟨0, ?_, fun _ => rfl⟩
    simp only [step]
    split_ifs
    · exact counted_shutdownFlush fails stored w
    · exact .of_eq rfl rfl
  | closeBegin => exact ⟨0, by unfold step closeBegin; split_ifs <;> exact .of_eq rfl rfl, fun _ => rfl⟩
  | closeEnd stored =>
    refine ⟨0, ?_, fun _ => rfl⟩
    simp only [step]
    split_ifs
    · exact .of_eq rfl rfl
    · exact counted_closeEnd cfg stored w

theorem run_counted (cfg : Config) (w : Writer) (events : List Event) :
    ∃ lag, Counted w (run cfg w events) lag ∧ ((∀ e ∈ events, NoDeleteFailure e) → lag = 0) := by
  induction events generalizing w with
  | nil => exact ⟨0, .of_eq rfl rfl, fun _ => rfl⟩
  | cons e es ih =>
    obtain ⟨a, h₁, ha⟩ := step_counted cfg w e
    obtain ⟨b, h₂, hb⟩ := ih (step cfg w e)
    refine ⟨a + b, h₁.trans h₂, fun h => ?_⟩
    rw [ha (h e (List.mem_cons_self _ _)), hb fun e' he' => h e' (List.mem_cons_of_mem _ he')]

/-- **`count_written` never overcounts.**  Whatever the configuration, the failures and the order of
events, a session only appends to the SQL store, and `count_written` never goes down and never
grows by more than the number of rows appended. -/
theorem run_never_overcounts (cfg : Config) (w : Writer) (events : List Event) :
    ∃ new, (run cfg w events).committed = w.committed ++ new ∧
      w.countWritten ≤ (run cfg w events).countWritten ∧
      (run cfg w events).countWritten ≤ w.countWritten + new.length := by
  obtain ⟨lag, ⟨new, hc, hl, hn⟩, -⟩ := run_counted cfg w events
  exact ⟨new, hc, by omega, by omega⟩

/-- **With no failing `delete_batch`, `count_written` counts every commit.**  In every session in
which no pass raises at `delete_batch`, whatever else fails, `count_written` grows by exactly the
number of rows appended to the SQL store. -/
theorem run_counts_every_commit (cfg : Config) (w : Writer) {events : List Event}
    (h : ∀ e ∈ events, NoDeleteFailure e) :
    ∃ new, (run cfg w events).committed = w.committed ++ new ∧
      (run cfg w events).countWritten = w.countWritten + new.length := by
  obtain ⟨lag, ⟨new, hc, -, hn⟩, hlag⟩ := run_counted cfg w events
  rw [hlag h, Nat.add_zero] at hn
  exact ⟨new, hc, hn⟩

/-- A spilled row, read back by a pass whose first commit fails, is committed on the next pass. -/
def spillThenDrain : List Event :=
  [.enqueue (probeRow 0 0xAA), .pass (.failing .connect), .pass (.failing .executeCached), .pass .ok]

theorem run_counts_every_commit_drain :
    (∀ e ∈ spillThenDrain, NoDeleteFailure e) ∧
      ∃ new, (run Config.default (Writer.init SpillFile.empty []) spillThenDrain).committed = [] ++ new ∧
        (run Config.default (Writer.init SpillFile.empty []) spillThenDrain).countWritten =
          0 + new.length :=
  have h : ∀ e ∈ spillThenDrain, NoDeleteFailure e := by decide
  ⟨h, run_counts_every_commit Config.default (Writer.init SpillFile.empty []) h⟩

end WireTap.Ingest.Counters
