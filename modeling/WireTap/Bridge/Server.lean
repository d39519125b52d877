import WireTap.Can.Kernel
import WireTap.Gvret.Push
import WireTap.Gvret.Session
import WireTap.Ingest.Enqueue

/-! # The bridge

`CanTcpServer` owns one raw CAN socket per interface, the listening TCP socket and the registry
`gvret_clients` of client sessions.  `run` waits on all of them with `select` and handles what is
ready:

* the listening socket: `_accept` takes the connection and builds a `GVRETClient` for it;
* `can_socks[i]`: every frame `recvmsg` returns is decoded, pushed to each client with
  `send_frame` (bus `bus_offset + i`), and handed to `pg_writer.enqueue`.

Each client's receive thread parses its requests (`Gvret.Session`); a `BUILD_FRAME` calls
`_tx_can`, which routes the frame to `can_socks[bus - bus_offset]`, writes it and enqueues it with
direction `"tx"`.

`Bridge` is the state these threads share and `Event` is what the world does to it: a connection
arriving (with `accept` or `getpeername` failing or not), a CAN socket becoming readable with the
frames it holds, a client socket receiving, and a peer resetting.  `runStep` is one event; the
exceptions `run` lets through are `RunError`.  The console echo is left out: its `try` swallows
every error and it changes no state. -/

namespace WireTap.Bridge.Server

open WireTap.ByteString WireTap.Can.Id WireTap.Can.Dlc WireTap.Can.Kernel WireTap.Gvret.Push
open WireTap.Gvret.Session WireTap.Ingest.Enqueue

/-- What `CanTcpServer.__init__` fixes.  It raises unless some interface is given, and it detects
one nominal bitrate per interface. -/
structure ServerConfig where
  busOffset : Nat
  nSocks : Nat
  canFd : Bool
  busSpeeds : List Nat
  defaultDir : String
  pgEnabled : Bool
  nSocks_pos : 0 < nSocks
  busSpeeds_length : busSpeeds.length = nSocks

/-- One interface at bus offset 0, classic CAN at 500 kbit/s, ingest on. -/
def oneBus : ServerConfig := ⟨0, 1, false, [500000], "rx", true, by decide, rfl⟩

/-- `self.bus_count = self.bus_offset + len(self.can_socks)`. -/
def ServerConfig.busCount (cfg : ServerConfig) : Nat := cfg.busOffset + cfg.nSocks

/-- **A frame `_tx_can` writes**: the socket index, the kernel frame, and the row of the
`enqueue` call that follows the write. -/
structure TxWrite where
  sockIdx : Nat
  frame : Bytes
  row : Row
  deriving DecidableEq, Repr

/-- **`CanTcpServer._tx_can`** at time `ts`: `none` when `bus - bus_offset` is not a socket index
(the frame is dropped), otherwise what it writes and enqueues. -/
def txCan (cfg : ServerConfig) (ts bus canId : Nat) (data : Bytes) (isFd : Bool) :
    Option TxWrite :=
  let sockIdx : Int := (bus : Int) - cfg.busOffset
  if 0 ≤ sockIdx ∧ sockIdx < cfg.nSocks then
    if isFd ∧ cfg.canFd then
      let dataLen := min data.length 64
      some ⟨sockIdx.toNat, packFd canId dataLen data,
        enqueueRow cfg.defaultDir ts canId (lenToDlc dataLen) (data.take dataLen) bus
          (some "tx") true⟩
    else
      let dlc := min data.length 8
      some ⟨sockIdx.toNat, packClassic canId dlc data,
        enqueueRow cfg.defaultDir ts canId dlc (data.take data.length) bus (some "tx") false⟩
  else none

/-- Whether a session's `k`-th call raises: a `tx_func` call whose CAN write fails
(`canFails k`), or a `reply_canbus_params` that raises.  `tx_func` is `_tx_can`, called with
`is_fd` left at `False`. -/
def callRaises (cfg : ServerConfig) (ts : Nat) (canFails : Nat → Bool) (k : Nat) : Call → Bool
  | .tx bus canId data => (txCan cfg ts bus canId data false).isSome && canFails k
  | .canbusParams => (replyCanbusParams cfg.busCount cfg.busSpeeds).isNone
  | _ => false

/-- A `BUILD_FRAME` whose CAN write fails (`ENOBUFS` on the non-blocking socket) ends the session,
and the `KEEPALIVE` after it in the same chunk is never answered. -/
theorem rxLoop_closes_on_can_write_failure :
    (rxLoop (callRaises oneBus 0 fun k => k == 0) RxState.init
        [.data [0xE7, 0xE7, 0xF1, 0x00, 0, 0, 0, 0, 0, 0, 0xF1, 0x09]]).calls = [.tx 0 0 []] ∧
    (rxLoop (callRaises oneBus 0 fun k => k == 0) RxState.init
        [.data [0xE7, 0xE7, 0xF1, 0x00, 0, 0, 0, 0, 0, 0, 0xF1, 0x09]]).alive = false := by
  decide

/-! ## Clients -/

/-- A registered `GVRETClient`: its connection, its receive side, the clock reading of its
`t0`, whether `sendall` on its socket succeeds, and what the server sent it. -/
structure ClientEntry where
  conn : Nat
  rx : RxState
  t0 : Nat
  writable : Bool
  sent : List Bytes

/-- `GVRETClient.send_frame` at clock reading `now`: nothing before the handshake; otherwise the
push goes through `_send`, which closes the session when `sendall` fails.  The second component
is whether it raised: `_send` catches every exception, so it never does. -/
def sendFrame (e : ClientEntry) (now canId bus : Nat) (data : Bytes) (isFd : Bool) :
    ClientEntry × Bool :=
  if e.rx.client.binary then
    if e.writable ∧ e.rx.alive then
      ({ e with sent := e.sent ++ [pushMsg (now - e.t0) canId bus data isFd] }, false)
    else ({ e with rx := { e.rx with alive := false } }, false)
  else (e, false)

/-- The bridge state: `gvret_clients` in insertion order, the next connection's identity, the
frames written to the CAN sockets, and the rows handed to `pg_writer.enqueue`. -/
structure Bridge where
  clients : List ClientEntry
  nextConn : Nat
  canWrites : List (Nat × Bytes)
  enqueued : List Row

/-- The bridge right after `__init__`. -/
def Bridge.init : Bridge := ⟨[], 0, [], []⟩

/-- `CanTcpServer._drop(conn)`: pop the session from the registry and close it. -/
def drop (b : Bridge) (conn : Nat) : Bridge :=
  { b with clients := b.clients.filter (·.conn != conn) }

/-- **The fan-out of `run`** for one decoded frame: `send_frame` to every registered client, then
`_drop` for each client whose `send_frame` raised. -/
def fanOut (b : Bridge) (now canId bus : Nat) (data : Bytes) (isFd : Bool) : Bridge :=
  let results := b.clients.map fun e => sendFrame e now canId bus data isFd
  let dead := (results.filter (·.2)).map (·.1.conn)
  dead.foldl drop { b with clients := results.map (·.1) }

/-! ## The event loop -/

/-- The exceptions `run` lets through. -/
inductive RunError
  /-- `self.srv.accept()` raised -/
  | accept
  /-- `conn.getpeername()` in `GVRETClient.__init__` raised: the peer reset first -/
  | getpeername
  /-- `struct.unpack_from` on a frame shorter than its format -/
  | unpack
  deriving DecidableEq, Repr

/-- The row `run` enqueues for a frame decoded from `can_socks[i]` with timestamp `ts`. -/
def frameRow (cfg : ServerConfig) (i ts : Nat) (d : Decoded) : Row :=
  enqueueRow cfg.defaultDir ts d.canId d.dlc d.data (cfg.busOffset + i) (some cfg.defaultDir) d.isFd

/-- One frame read from `can_socks[i]`, with its timestamp: decode it, fan it out on bus
`bus_offset + i`, enqueue it with the default direction. -/
def onFrame (cfg : ServerConfig) (i now : Nat) (b : Bridge) (tf : Nat × Bytes) :
    Except RunError Bridge :=
  match decodeFrame tf.2 with
  | none => .error .unpack
  | some d =>
    let b := fanOut b now d.canId (cfg.busOffset + i) d.data d.isFd
    .ok (if cfg.pgEnabled then { b with enqueued := b.enqueued ++ [frameRow cfg i tf.1 d] } else b)

/-- The drain loop over what `recvmsg` returns; an empty frame ends it. -/
def onFrames (cfg : ServerConfig) (i now : Nat) : Bridge → List (Nat × Bytes) → Except RunError Bridge
  | b, [] => .ok b
  | b, f :: fs => if f.2.isEmpty then .ok b else (onFrame cfg i now b f).bind (onFrames cfg i now · fs)

/-- **`_accept`**: `accept()` and `getpeername()` may raise; otherwise the new session is registered. -/
def accept (b : Bridge) (acceptOk peerOk : Bool) (now : Nat) : Except RunError Bridge :=
  if ¬ acceptOk then .error .accept
  else if ¬ peerOk then .error .getpeername
  else .ok { b with clients := b.clients ++ [⟨b.nextConn, RxState.init, now, true, []⟩],
                    nextConn := b.nextConn + 1 }

/-- What a call the session made does to the bridge: a `tx_func` call that did not raise writes
and enqueues the frame `_tx_can` routes, if any.  Replies go to the client only. -/
def applyCall (cfg : ServerConfig) (now : Nat) (raises : Nat → Call → Bool) (b : Bridge)
    (kc : Nat × Call) : Bridge :=
  match kc.2 with
  | .tx bus canId data =>
    match txCan cfg now bus canId data false with
    | some w =>
      if raises kc.1 kc.2 then b
      else { b with canWrites := b.canWrites ++ [(w.sockIdx, w.frame)],
                    enqueued := if cfg.pgEnabled then b.enqueued ++ [w.row] else b.enqueued }
    | none => b
  | _ => b

/-- A client's receive thread gets `r`; `canFails k` says whether the CAN write of its `k`-th call
fails.  A reply sent on a socket that no longer takes writes closes the session. -/
def clientRecv (cfg : ServerConfig) (now : Nat) (b : Bridge) (conn : Nat) (r : Recv)
    (canFails : Nat → Bool) : Bridge :=
  match b.clients.find? (·.conn == conn) with
  | none => b
  | some e =>
    if ¬ e.rx.alive then b else
    let raises := callRaises cfg now canFails
    let rx := rxStep raises e.rx r
    let made := (List.range rx.calls.length).zip rx.calls |>.drop e.rx.calls.length
    let replied := made.any fun kc => !kc.2 matches .tx ..
    let e' := { e with rx := { rx with alive := rx.alive && (e.writable || !replied) } }
    let b := made.foldl (applyCall cfg now raises) b
    { b with clients := b.clients.map fun c => if c.conn == conn then e' else c }

/-- What happens to the bridge. -/
inductive Event
  /-- the listening socket is readable; whether `accept()` and `getpeername()` succeed -/
  | accept (acceptOk peerOk : Bool)
  /-- `can_socks[i]` is readable, holding these timestamped frames -/
  | canReady (i : Nat) (frames : List (Nat × Bytes))
  /-- a client's receive thread gets `r`; `canFails` is the pattern of CAN write failures -/
  | clientRecv (conn : Nat) (r : Recv) (canFails : Nat → Bool)
  /-- a client's peer resets: its socket takes no more writes -/
  | peerReset (conn : Nat)

/-- **One event, at clock reading `now`**. -/
def runStep (cfg : ServerConfig) (b : Bridge) (now : Nat) : Event → Except RunError Bridge
  | .accept acceptOk peerOk => accept b acceptOk peerOk now
  | .canReady i frames => if i < cfg.nSocks then onFrames cfg i now b frames else .ok b
  | .clientRecv conn r canFails => .ok (clientRecv cfg now b conn r canFails)
  | .peerReset conn =>
    .ok { b with clients := b.clients.map fun c =>
      if c.conn == conn then { c with writable := false } else c }

/-- **`CanTcpServer.run`** over a sequence of timed events, up to the first exception. -/
def run (cfg : ServerConfig) : Bridge → List (Nat × Event) → Except RunError Bridge
  | b, [] => .ok b
  | b, (now, ev) :: evs => (runStep cfg b now ev).bind (run cfg · evs)

/-- Whatever the configuration, the state and the events that follow, a connection whose peer
resets before `getpeername` makes `run` raise. -/
theorem run_raises_on_getpeername (cfg : ServerConfig) (b : Bridge) (now : Nat)
    (evs : List (Nat × Event)) :
    run cfg b ((now, .accept true false) :: evs) = .error .getpeername := rfl

/-- A client whose peer resets after the handshake: the fan-out of the next frame closes the session
but leaves it in `gvret_clients`. -/
theorem run_keeps_closed_client :
    (run oneBus Bridge.init
        [(0, .accept true true), (1, .clientRecv 0 (.data [0xE7, 0xE7]) fun _ => false),
          (2, .peerReset 0),
          (3, .canReady 0 [(3, [0x23, 1, 0, 0, 1, 0, 0, 0, 0xAA, 0, 0, 0, 0, 0, 0, 0])])]).map
      (fun b => b.clients.map fun c => (c.conn, c.rx.alive)) = .ok [(0, false)] := rfl

end WireTap.Bridge.Server
