import WireTap.ByteString
import WireTap.Can.Id
import WireTap.Can.Dlc

/-! # Ingest rows

`PostgresWriter.enqueue` turns a frame into the nine-field row the ingest function takes:
`(ts, extended, is_fd, id, id_hex, dlc, data_bytes, bus, dir)`.  It recomputes the extended flag
and the arbitration id from `can_id`, and cuts the payload to `dlc_to_len(dlc, True)` bytes for an
FD frame and `min(dlc, 8)` for a classic one.

The timestamp is the float `run` or `_tx_can` passes; it is carried as an opaque number, since no
modelled computation reads it. -/

namespace WireTap.Ingest.Enqueue

open WireTap.ByteString WireTap.Can.Id WireTap.Can.Dlc

/-- A row of the ingest queue and of the spill store. -/
structure Row where
  ts : Nat
  extended : Bool
  isFd : Bool
  arbId : Nat
  idHex : Option String
  dlc : Nat
  data : Bytes
  bus : Nat
  dir : String
  deriving DecidableEq, Repr

/-- `dir_ or self.default_dir`: `None` and `""` both fall back to the default. -/
def dirOr (dir : Option String) (defaultDir : String) : String :=
  match dir with
  | some d => if d = "" then defaultDir else d
  | none => defaultDir

/-- The payload length `enqueue` keeps: `dlc_to_len(dlc, is_fd) if is_fd else min(dlc, 8)`. -/
def rowLen (dlc : Nat) (isFd : Bool) : Nat := if isFd then dlcToLen dlc isFd else min dlc 8

/-- **The row `PostgresWriter.enqueue` builds** for its arguments. -/
def enqueueRow (defaultDir : String) (ts canId dlc : Nat) (data : Bytes) (bus : Nat)
    (dir : Option String) (isFd : Bool) : Row :=
  { ts := ts, extended := extendedOf canId, isFd := isFd, arbId := arbIdOf canId, idHex := none,
    dlc := dlc, data := data.take (rowLen dlc isFd), bus := bus, dir := dirOr dir defaultDir }

end WireTap.Ingest.Enqueue
