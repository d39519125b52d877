import WireTap.Bridge.Log
import WireTap.Ingest.Progress

/-! # From the CAN bus to the SQL store

The bridge and the ingest writer meet at `pg_writer.enqueue`: each row `CanTcpServer` hands over is
a producer's `enqueue` for `PostgresWriter`, whose worker makes its passes in between.  Composing
what the bridge hands over (`Bridge.Log`) with what the worker commits (`Ingest.Progress`): with
ingest on, a default direction other than `"tx"`, the database up and room in the queue, once the
worker has made as many passes as there is work, the SQL store holds, after what the writer already
held, exactly the bridge's traffic.  Its rows not marked `"tx"` are `frame_row` of each frame read
from the CAN sockets, in order; its `"tx"` rows are those of the frames written to them, in order
(`traffic_is_committed`).
-/

namespace WireTap.Pipeline

open WireTap.Ingest.Enqueue WireTap.Ingest.Spill WireTap.Bridge WireTap.Bridge.Log WireTap.Ingest
open WireTap.Bridge.Server (ServerConfig Bridge TxWrite txCan oneBus)
open WireTap.Ingest.Worker (Config Writer rowsOf)
open WireTap.Ingest.Conservation (enqueued)
open WireTap.Ingest.Progress (Ready load Fed Room)

/-- **The SQL store ends up holding the bridge's traffic.**  For every server with ingest on and a
default direction other than `"tx"`, and every run of it; for every writer whose worker makes passes
with an open spill store and any `batch_size` other than `0`, handed exactly the rows the run
enqueued, interleaved with passes that have no raising call and no refused spill write, in a queue
with room for them: after as many more passes as there is work, the rows committed after what the
writer held are such that those not marked `"tx"` are `frame_row` of each frame `run` read and
decoded, in the order read, and those marked `"tx"` are, in order, the rows `_tx_can` built for the
frames the run wrote to the CAN sockets, one per write. -/
theorem traffic_is_committed (scfg : ServerConfig) (hpg : scfg.pgEnabled = true)
    (hdir : scfg.defaultDir ≠ "tx") {b b' : Bridge} {evs : List (Nat × Server.Event)}
    (hb : Server.run scfg b evs = .ok b') (cfg : Config) (hbs : cfg.batchSize ≠ 0) {w : Writer}
    (hw : Ready w) {wevs : List Worker.Event} (hfed : ∀ e ∈ wevs, Fed e)
    (hhand : b'.enqueued = b.enqueued ++ enqueued wevs)
    (hroom : Room cfg (w.q.length + (enqueued wevs).length)) {n : Nat}
    (hn : load w + (enqueued wevs).length ≤ n) :
    ∃ (new : List Row) (ws : List TxWrite),
      (Worker.run cfg w (wevs ++ List.replicate n (.pass .ok))).committed =
        w.committed ++ w.cache.rows ++ rowsOf w.q ++ new ∧
      new.filter (fun r => !isTx r) = rxRowsOf scfg evs ∧ new.filter isTx = ws.map (·.row) ∧
      b'.canWrites = b.canWrites ++ ws.map (fun x => (x.sockIdx, x.frame)) ∧
      ∀ x ∈ ws, ∃ ts bus canId data, txCan scfg ts bus canId data false = some x := by
  obtain ⟨rows, ws, he, hcw, hrx, htx, hp⟩ := logs_run scfg hpg hdir hb
  have hrows : enqueued wevs = rows := List.append_cancel_left (hhand.symm.trans he)
  obtain ⟨hc, -, -⟩ := Progress.run_fed_drain cfg hbs hw hfed hroom hn
  refine ⟨rows, ws, ?_, hrx, htx, hcw, hp⟩
  rw [hc, Order.pending, if_pos hw.running, hrows]
  simp only [List.append_assoc]

/-- Each row handed over, followed by a pass of the worker. -/
def handOver (rows : List Row) : List Worker.Event := rows.flatMap fun r => [.enqueue r, .pass .ok]

theorem fed_handOver (rows : List Row) : ∀ e ∈ handOver rows, Fed e := fun e he => by
  obtain ⟨r, -, he⟩ := List.mem_flatMap.1 he
  simp only [List.mem_cons, List.mem_singleton, List.not_mem_nil, or_false] at he
  rcases he with rfl | rfl <;> trivial

/-- The rows the bridge hands over in `buildThenRead`: the frame it writes, then the frame it
reads. -/
def handedOver : List Row :=
  match Server.run oneBus Bridge.init buildThenRead with
  | .ok b => b.enqueued
  | .error _ => []

theorem traffic_is_committed_both :
    ∃ b', Server.run oneBus Bridge.init buildThenRead = .ok b' ∧
      b'.enqueued = Bridge.init.enqueued ++ enqueued (handOver handedOver) ∧
      Ready (Writer.init SpillFile.empty []) ∧ (∀ e ∈ handOver handedOver, Fed e) ∧
      Room Config.default
        ((Writer.init SpillFile.empty []).q.length + (enqueued (handOver handedOver)).length) ∧
      load (Writer.init SpillFile.empty []) + (enqueued (handOver handedOver)).length ≤ 2 ∧
      ∃ (new : List Row) (ws : List TxWrite),
        (Worker.run Config.default (Writer.init SpillFile.empty [])
            (handOver handedOver ++ List.replicate 2 (.pass .ok))).committed =
          (Writer.init SpillFile.empty []).committed ++ (Writer.init SpillFile.empty []).cache.rows ++
            rowsOf (Writer.init SpillFile.empty []).q ++ new ∧
        new.filter (fun r => !isTx r) = rxRowsOf oneBus buildThenRead ∧
        new.filter isTx = ws.map (·.row) ∧
        b'.canWrites = Bridge.init.canWrites ++ ws.map (fun x => (x.sockIdx, x.frame)) ∧
        ∀ x ∈ ws, ∃ ts bus canId data, txCan oneBus ts bus canId data false = some x :=
  have hdir : oneBus.defaultDir ≠ "tx" := by decide
  have hw : Ready (Writer.init SpillFile.empty []) := ⟨rfl, rfl, rfl⟩
  have hfed := fed_handOver handedOver
  have hroom : Room Config.default
      ((Writer.init SpillFile.empty []).q.length + (enqueued (handOver handedOver)).length) := by
    decide
  have hn : load (Writer.init SpillFile.empty []) + (enqueued (handOver handedOver)).length ≤ 2 := by
    decide
  ⟨_, rfl, by decide, hw, hfed, hroom, hn,
    @traffic_is_committed oneBus rfl hdir Bridge.init _ buildThenRead rfl Config.default (by decide)
      _ hw _ hfed (by decide) hroom _ hn⟩

end WireTap.Pipeline
