import Mathlib.Data.List.Nodup
import WireTap.Bridge.Server

/-! # Whole runs of the bridge

What holds of `CanTcpServer.run` over every sequence of events, from one step lemma per event kind
and an induction over the events:

* `gvret_clients` is exactly the sessions accepted so far, in the order of acceptance: `_drop` is
  only reached for a session whose `send_frame` raised, and `send_frame` never raises, since `_send`
  catches everything.  A session's pushes and calls only grow by appends, it never becomes binary
  again after leaving ASCII mode, a reset peer never becomes writable again, and a closed session
  is frozen: it makes no call and is sent nothing (`run_keeps_every_session`);
* a session that is open, past its handshake and writable, and that no event of its own touches,
  is sent every frame `run` reads, once and in order (`run_pushes_every_frame`);
* every frame written to a CAN socket is a 16-byte classic `can_frame` with a DLC of at most 8, on a
  socket `CanTcpServer` owns: a session's `BUILD_FRAME` reaches `_tx_can` without `is_fd`, so the
  bridge never transmits a CAN FD frame (`run_writes_only_classic_frames`).
-/

namespace WireTap.Bridge.Runs

open WireTap.ByteString WireTap.Can.Kernel WireTap.Gvret.Push WireTap.Gvret.Session
open WireTap.Bridge.Server

/-! ## One session -/

@[simp] theorem clientEntry_eta (e : ClientEntry) : { e with sent := e.sent } = e := rfl

@[simp] theorem sendFrame_conn (e : ClientEntry) (now canId bus : Nat) (data : Bytes) (isFd : Bool) :
    (sendFrame e now canId bus data isFd).1.conn = e.conn := by
  unfold sendFrame; split_ifs <;> rfl

@[simp] theorem sendFrame_snd (e : ClientEntry) (now canId bus : Nat) (data : Bytes) (isFd : Bool) :
    (sendFrame e now canId bus data isFd).2 = false := by
  unfold sendFrame; split_ifs <;> rfl

theorem handshake_fst_true (n : Nat) (buf : Bytes) : (handshake n true buf).1 = true := by
  induction n generalizing buf with
  | zero => rfl
  | succ n ih =>
    unfold handshake
    split
    · rfl
    · exact ih _

theorem onChunk_binary {s : ClientState} (hs : s.binary = true) (chunk : Bytes) :
    (onChunk s chunk).1.binary = true := by
  unfold onChunk
  dsimp only
  rw [hs, if_pos (handshake_fst_true _ _)]

theorem rxStep_calls (raises : Nat → Call → Bool) (st : RxState) (r : Recv) :
    st.calls <+: (rxStep raises st r).calls := by
  cases r with
  | data chunk => exact List.prefix_append _ _
  | timeout | eof | fail => exact List.prefix_refl _

theorem rxStep_binary (raises : Nat → Call → Bool) {st : RxState} (hb : st.client.binary = true)
    (r : Recv) : (rxStep raises st r).client.binary = true := by
  cases r with
  | data chunk => exact onChunk_binary hb chunk
  | timeout | eof | fail => exact hb

/-- **How a session evolves**: the same connection and clock origin; pushes and calls grow by
appends; binary mode, closure and a reset peer are for good; and a closed session is frozen. -/
structure Evolves (e e' : ClientEntry) : Prop where
  conn : e'.conn = e.conn
  t0 : e'.t0 = e.t0
  sent : e.sent <+: e'.sent
  calls : e.rx.calls <+: e'.rx.calls
  binary : e.rx.client.binary = true → e'.rx.client.binary = true
  alive : e'.rx.alive = true → e.rx.alive = true
  writable : e'.writable = true → e.writable = true
  closed : e.rx.alive = false → e'.rx = e.rx ∧ e'.sent = e.sent

theorem Evolves.refl (e : ClientEntry) : Evolves e e :=
  ⟨rfl, rfl, List.prefix_refl _, List.prefix_refl _, id, id, id, fun _ => ⟨rfl, rfl⟩⟩

theorem Evolves.trans {e₁ e₂ e₃ : ClientEntry} (h₁ : Evolves e₁ e₂) (h₂ : Evolves e₂ e₃) :
    Evolves e₁ e₃ where
  conn := h₂.conn.trans h₁.conn
  t0 := h₂.t0.trans h₁.t0
  sent := h₁.sent.trans h₂.sent
  calls := h₁.calls.trans h₂.calls
  binary := h₂.binary ∘ h₁.binary
  alive := h₁.alive ∘ h₂.alive
  writable := h₁.writable ∘ h₂.writable
  closed := fun hc =>
    have h₁c := h₁.closed hc
    have h₂c := h₂.closed (by rw [h₁c.1]; exact hc)
    ⟨h₂c.1.trans h₁c.1, h₂c.2.trans h₁c.2⟩

theorem evolves_sendFrame (e : ClientEntry) (now canId bus : Nat) (data : Bytes) (isFd : Bool) :
    Evolves e (sendFrame e now canId bus data isFd).1 := by
  obtain ⟨conn, ⟨client, calls, alive⟩, t0, writable, sent⟩ := e
  unfold sendFrame
  split_ifs with hb ho
  · exact ⟨rfl, rfl, List.prefix_append _ _, List.prefix_refl _, id, id, id,
      fun hc => absurd ho.2 (by rw [hc]; decide)⟩
  · exact ⟨rfl, rfl, List.prefix_refl _, List.prefix_refl _, id, (fun h => by cases h), id,
      fun hc => by cases hc; exact ⟨rfl, rfl⟩⟩
  · exact Evolves.refl _

/-! ## The registry -/

/-- **The registry invariant**: `gvret_clients` holds one session per connection accepted so far,
in the order of acceptance. -/
def Registered (b : Bridge) : Prop := b.clients.map (·.conn) = List.range b.nextConn

/-- Every session of `b` is still registered in `b'`, and has evolved. -/
def Grows (b b' : Bridge) : Prop := ∀ e ∈ b.clients, ∃ e' ∈ b'.clients, Evolves e e'

theorem Grows.refl (b : Bridge) : Grows b b := fun e he => ⟨e, he, Evolves.refl e⟩

theorem Grows.trans {b₁ b₂ b₃ : Bridge} (h₁ : Grows b₁ b₂) (h₂ : Grows b₂ b₃) : Grows b₁ b₃ :=
  fun e he =>
    let ⟨e₂, he₂, h₁₂⟩ := h₁ e he
    let ⟨e₃, he₃, h₂₃⟩ := h₂ e₂ he₂
    ⟨e₃, he₃, h₁₂.trans h₂₃⟩

/-- `b'` changes each session of `b` in place, evolving it, and keeps the connection counter. -/
def Touches (b b' : Bridge) : Prop :=
  ∃ f : ClientEntry → ClientEntry, (∀ e ∈ b.clients, Evolves e (f e)) ∧
    b'.clients = b.clients.map f ∧ b'.nextConn = b.nextConn

theorem Touches.refl (b : Bridge) : Touches b b :=
  ⟨id, fun e _ => Evolves.refl e, (List.map_id _).symm, rfl⟩

theorem Touches.trans {b₁ b₂ b₃ : Bridge} (h₁ : Touches b₁ b₂) (h₂ : Touches b₂ b₃) :
    Touches b₁ b₃ := by
  obtain ⟨f, hf, hc₁, hn₁⟩ := h₁
  obtain ⟨g, hg, hc₂, hn₂⟩ := h₂
  refine ⟨g ∘ f, fun e he => (hf e he).trans (hg (f e) ?_), by rw [hc₂, hc₁, List.map_map],
    hn₂.trans hn₁⟩
  rw [hc₁]; exact List.mem_map_of_mem f he

theorem Touches.registered {b b' : Bridge} (h : Touches b b') (hreg : Registered b) :
    Registered b' := by
  obtain ⟨f, hf, hc, hn⟩ := h
  unfold Registered at *
  rw [hc, hn, ← hreg, List.map_map]
  exact List.map_congr_left fun e he => (hf e he).conn

theorem Touches.grows {b b' : Bridge} (h : Touches b b') : Grows b b' := by
  obtain ⟨f, hf, hc, -⟩ := h
  exact fun e he => ⟨f e, by rw [hc]; exact List.mem_map_of_mem f he, hf e he⟩

theorem eq_of_find? {b : Bridge} (hreg : Registered b) {conn : Nat} {e c : ClientEntry}
    (hf : b.clients.find? (·.conn == conn) = some e) (hc : c ∈ b.clients) (hcc : c.conn = conn) :
    c = e := by
  have hnd : (b.clients.map (·.conn)).Nodup := by rw [hreg]; exact List.nodup_range _
  have he := List.find?_some hf
  simp only [beq_iff_eq] at he
  exact List.inj_on_of_nodup_map hnd hc (List.mem_of_find?_eq_some hf) (hcc.trans he.symm)

/-! ## One event -/

theorem fanOut_eq (b : Bridge) (now canId bus : Nat) (data : Bytes) (isFd : Bool) :
    fanOut b now canId bus data isFd =
      { b with clients := b.clients.map fun e => (sendFrame e now canId bus data isFd).1 } := by
  simp only [fanOut, List.filter_map, Function.comp_def, sendFrame_snd, List.filter_false,
    List.map_nil, List.foldl_nil, List.map_map]

theorem onFrame_ok {cfg : ServerConfig} {i now : Nat} {b b' : Bridge} {tf : Nat × Bytes}
    (h : onFrame cfg i now b tf = .ok b') :
    ∃ d, decodeFrame tf.2 = some d ∧
      b'.clients = b.clients.map (fun e => (sendFrame e now d.canId (cfg.busOffset + i) d.data d.isFd).1) ∧
      b'.nextConn = b.nextConn ∧ b'.canWrites = b.canWrites := by
  unfold onFrame at h
  cases hd : decodeFrame tf.2 with
  | none => rw [hd] at h; cases h
  | some d =>
    rw [hd] at h
    cases h
    refine ⟨d, rfl, ?_⟩
    split_ifs <;> rw [fanOut_eq] <;> exact ⟨rfl, rfl, rfl⟩

theorem touches_onFrame {cfg : ServerConfig} {i now : Nat} {b b' : Bridge} {tf : Nat × Bytes}
    (h : onFrame cfg i now b tf = .ok b') : Touches b b' := by
  obtain ⟨d, -, hc, hn, -⟩ := onFrame_ok h
  exact ⟨_, fun e _ => evolves_sendFrame e _ _ _ _ _, hc, hn⟩

theorem touches_onFrames {cfg : ServerConfig} {i now : Nat} :
    ∀ {b b' : Bridge} {frames : List (Nat × Bytes)}, onFrames cfg i now b frames = .ok b' →
      Touches b b'
  | b, b', [], h => by cases h; exact Touches.refl b
  | b, b', f :: fs, h => by
    unfold onFrames at h
    split_ifs at h
    · cases h; exact Touches.refl b
    · cases hf : onFrame cfg i now b f with
      | error _ => rw [hf] at h; cases h
      | ok b₁ => rw [hf] at h; exact (touches_onFrame hf).trans (touches_onFrames h)

theorem applyCall_clients (cfg : ServerConfig) (now : Nat) (raises : Nat → Call → Bool)
    (b : Bridge) (kc : Nat × Call) :
    (applyCall cfg now raises b kc).clients = b.clients ∧
      (applyCall cfg now raises b kc).nextConn = b.nextConn := by
  unfold applyCall
  split
  · split
    · split_ifs <;> exact ⟨rfl, rfl⟩
    · exact ⟨rfl, rfl⟩
  · exact ⟨rfl, rfl⟩

theorem foldl_applyCall_clients (cfg : ServerConfig) (now : Nat) (raises : Nat → Call → Bool) :
    ∀ (made : List (Nat × Call)) (b : Bridge),
      (made.foldl (applyCall cfg now raises) b).clients = b.clients ∧
        (made.foldl (applyCall cfg now raises) b).nextConn = b.nextConn
  | [], _ => ⟨rfl, rfl⟩
  | kc :: made, b => by
    obtain ⟨hc, hn⟩ := applyCall_clients cfg now raises b kc
    obtain ⟨hc', hn'⟩ := foldl_applyCall_clients cfg now raises made (applyCall cfg now raises b kc)
    exact ⟨hc'.trans hc, hn'.trans hn⟩

theorem clientRecv_shared (cfg : ServerConfig) (now : Nat) (b : Bridge) (conn : Nat) (r : Recv)
    (canFails : Nat → Bool) :
    ∃ made : List (Nat × Call),
      (clientRecv cfg now b conn r canFails).canWrites =
        (made.foldl (applyCall cfg now (callRaises cfg now canFails)) b).canWrites ∧
      (clientRecv cfg now b conn r canFails).enqueued =
        (made.foldl (applyCall cfg now (callRaises cfg now canFails)) b).enqueued := by
  unfold clientRecv
  cases b.clients.find? (·.conn == conn) with
  | none => exact ⟨[], rfl, rfl⟩
  | some e =>
    dsimp only
    split_ifs
    · exact ⟨_, rfl, rfl⟩
    · exact ⟨[], rfl, rfl⟩

theorem touches_clientRecv (cfg : ServerConfig) (now : Nat) {b : Bridge} (hreg : Registered b)
    (conn : Nat) (r : Recv) (canFails : Nat → Bool) :
    Touches b (clientRecv cfg now b conn r canFails) := by
  unfold clientRecv
  cases hf : b.clients.find? (·.conn == conn) with
  | none => exact Touches.refl b
  | some e =>
    dsimp only
    by_cases halive : e.rx.alive = true
    · rw [if_neg (by simpa using halive)]
      obtain ⟨hc, hn⟩ := foldl_applyCall_clients cfg now (callRaises cfg now canFails)
        (((List.range (rxStep (callRaises cfg now canFails) e.rx r).calls.length).zip
          (rxStep (callRaises cfg now canFails) e.rx r).calls).drop e.rx.calls.length) b
      refine ⟨_, fun c hc' => ?_, by rw [hc], hn⟩
      split_ifs with hcc
      · obtain rfl := eq_of_find? hreg hf hc' (beq_iff_eq.1 hcc)
        exact ⟨rfl, rfl, List.prefix_refl _, rxStep_calls _ _ _, fun hb => rxStep_binary _ hb _,
          fun _ => halive, id, fun h => absurd (h.symm.trans halive) (by decide)⟩
      · exact Evolves.refl c
    · rw [if_pos (by simpa using halive)]
      exact Touches.refl b

theorem touches_peerReset (b : Bridge) (conn : Nat) :
    Touches b { b with clients := b.clients.map fun c =>
      if c.conn == conn then { c with writable := false } else c } := by
  refine ⟨_, fun c _ => ?_, rfl, rfl⟩
  split_ifs
  · exact ⟨rfl, rfl, List.prefix_refl _, List.prefix_refl _, id, id, (fun h => by cases h),
      fun _ => ⟨rfl, rfl⟩⟩
  · exact Evolves.refl c

theorem accept_ok {b b' : Bridge} {acceptOk peerOk : Bool} {now : Nat}
    (h : accept b acceptOk peerOk now = .ok b') :
    b'.clients = b.clients ++ [⟨b.nextConn, RxState.init, now, true, []⟩] ∧
      b'.nextConn = b.nextConn + 1 := by
  unfold accept at h
  split_ifs at h
  cases h
  exact ⟨rfl, rfl⟩

/-- **One event** keeps the registry invariant, and every session persists and evolves. -/
theorem runStep_ok (cfg : ServerConfig) {b b' : Bridge} {now : Nat} {ev : Event}
    (hreg : Registered b) (h : runStep cfg b now ev = .ok b') : Registered b' ∧ Grows b b' := by
  cases ev with
  | accept acceptOk peerOk =>
    obtain ⟨hc, hn⟩ := accept_ok h
    refine ⟨?_, fun e he => ⟨e, by rw [hc]; exact List.mem_append_left _ he, Evolves.refl e⟩⟩
    unfold Registered at *
    rw [hc, hn, List.map_append, hreg, List.range_succ]
    rfl
  | canReady i frames =>
    simp only [runStep] at h
    split_ifs at h
    · have ht := touches_onFrames h
      exact ⟨ht.registered hreg, ht.grows⟩
    · cases h; exact ⟨hreg, Grows.refl b⟩
  | clientRecv conn r canFails =>
    cases h
    have ht := touches_clientRecv cfg now hreg conn r canFails
    exact ⟨ht.registered hreg, ht.grows⟩
  | peerReset conn =>
    cases h
    have ht := touches_peerReset b conn
    exact ⟨ht.registered hreg, ht.grows⟩

theorem run_cons_ok {cfg : ServerConfig} {b b' : Bridge} {now : Nat} {ev : Event}
    {evs : List (Nat × Event)} (h : run cfg b ((now, ev) :: evs) = .ok b') :
    ∃ b₁, runStep cfg b now ev = .ok b₁ ∧ run cfg b₁ evs = .ok b' := by
  unfold run at h
  cases hs : runStep cfg b now ev with
  | error _ => rw [hs] at h; cases h
  | ok b₁ => rw [hs] at h; exact ⟨b₁, rfl, h⟩

/-- **No session is ever dropped, and sessions only move forward.**  Over every run from a
registered state, `gvret_clients` stays exactly the sessions accepted so far, in the order of
acceptance; and every session of the start is still registered at the end, with the same
connection and clock origin, its pushes and calls extended by appends only, still binary if it
was, closed and unwritable for good once it was, and unchanged in what it received and sent if it
was already closed. -/
theorem run_keeps_every_session (cfg : ServerConfig) {b b' : Bridge} {evs : List (Nat × Event)}
    (hreg : Registered b) (h : run cfg b evs = .ok b') : Registered b' ∧ Grows b b' := by
  induction evs generalizing b with
  | nil => cases h; exact ⟨hreg, Grows.refl _⟩
  | cons ev evs ih =>
    obtain ⟨b₁, hs, h⟩ := run_cons_ok h
    obtain ⟨hreg₁, hg₁⟩ := runStep_ok cfg hreg hs
    obtain ⟨hreg', hg'⟩ := ih hreg₁ h
    exact ⟨hreg', hg₁.trans hg'⟩

/-- The classic frame `0x123 [AA]`. -/
def frameAA : Bytes := [0x23, 1, 0, 0, 1, 0, 0, 0, 0xAA, 0, 0, 0, 0, 0, 0, 0]

/-- A client connects at time 0 and sends the binary handshake `E7 E7` at time 1. -/
def opening : List (Nat × Event) :=
  [(0, .accept true true), (1, .clientRecv 0 (.data [0xE7, 0xE7]) fun _ => false)]

/-- Its peer resets, a frame arrives on bus 0, and a second client connects. -/
def resetThenFrame : List (Nat × Event) :=
  [(2, .peerReset 0), (3, .canReady 0 [(3, frameAA)]), (4, .accept true true)]

/-- The session opened by `opening` is still registered after `resetThenFrame` closes it. -/
theorem run_keeps_every_session_reset :
    ∃ b₁ b', run oneBus Bridge.init opening = .ok b₁ ∧ Registered b₁ ∧
      run oneBus b₁ resetThenFrame = .ok b' ∧ Registered b' ∧ Grows b₁ b' :=
  ⟨_, _, rfl, rfl, rfl, @run_keeps_every_session oneBus _ _ resetThenFrame rfl rfl⟩

/-! ## The fan-out -/

/-- The timestamped frames of one readable `can_socks[i]` that `run` decodes and fans out: those
before the first empty one. -/
def framesRead : List (Nat × Bytes) → List (Nat × Bytes)
  | [] => []
  | f :: fs => if f.2.isEmpty then [] else f :: framesRead fs

/-- The pushes `send_frame` builds for a session with clock origin `t0`, from the frames that the
events `evs` make `run` read, in order. -/
def pushesOf (cfg : ServerConfig) (t0 : Nat) : List (Nat × Event) → List Bytes
  | [] => []
  | (now, .canReady i frames) :: evs =>
    (if i < cfg.nSocks then
      (framesRead frames).filterMap fun f => (decodeFrame f.2).map fun d =>
        pushMsg (now - t0) d.canId (cfg.busOffset + i) d.data d.isFd
    else []) ++ pushesOf cfg t0 evs
  | _ :: evs => pushesOf cfg t0 evs

/-- The event is not one of session `conn`'s own: not a chunk it receives, not its peer's reset. -/
def NotOwn (conn : Nat) : Event → Prop
  | .clientRecv c _ _ => c ≠ conn
  | .peerReset c => c ≠ conn
  | _ => True

/-- A session `send_frame` pushes to: past its handshake, open, and on a socket that takes writes. -/
def Open (e : ClientEntry) : Prop := e.rx.client.binary = true ∧ e.rx.alive = true ∧ e.writable = true

theorem sendFrame_open {e : ClientEntry} (ho : Open e) (now canId bus : Nat) (data : Bytes)
    (isFd : Bool) : (sendFrame e now canId bus data isFd).1 =
      { e with sent := e.sent ++ [pushMsg (now - e.t0) canId bus data isFd] } := by
  unfold sendFrame
  rw [if_pos ho.1, if_pos ⟨ho.2.2, ho.2.1⟩]

theorem onFrames_pushes {cfg : ServerConfig} {i now : Nat} :
    ∀ {b b' : Bridge} {frames : List (Nat × Bytes)} {e : ClientEntry},
      onFrames cfg i now b frames = .ok b' → e ∈ b.clients → Open e →
      { e with sent := e.sent ++ (framesRead frames).filterMap fun f => (decodeFrame f.2).map fun d =>
          pushMsg (now - e.t0) d.canId (cfg.busOffset + i) d.data d.isFd } ∈ b'.clients
  | b, b', [], e, h, he, _ => by cases h; simpa [framesRead] using he
  | b, b', f :: fs, e, h, he, ho => by
    unfold onFrames at h
    by_cases hf : f.2.isEmpty
    · rw [if_pos hf] at h
      cases h
      simpa [framesRead, hf] using he
    · rw [if_neg hf] at h
      cases h₁ : onFrame cfg i now b f with
      | error _ => rw [h₁] at h; cases h
      | ok b₁ =>
        rw [h₁] at h
        obtain ⟨d, hd, hc, -, -⟩ := onFrame_ok h₁
        have he₁ : { e with sent := e.sent ++ [pushMsg (now - e.t0) d.canId (cfg.busOffset + i)
            d.data d.isFd] } ∈ b₁.clients := by
          rw [hc, ← sendFrame_open ho]; exact List.mem_map_of_mem _ he
        have := onFrames_pushes h he₁ ho
        simpa [framesRead, hf, hd, List.filterMap_cons] using this

theorem mem_clientRecv {cfg : ServerConfig} {now : Nat} {b : Bridge} {conn : Nat} {r : Recv}
    {canFails : Nat → Bool} {e : ClientEntry} (hne : e.conn ≠ conn) (he : e ∈ b.clients) :
    e ∈ (clientRecv cfg now b conn r canFails).clients := by
  unfold clientRecv
  cases b.clients.find? (·.conn == conn) with
  | none => exact he
  | some e₀ =>
    dsimp only
    by_cases halive : e₀.rx.alive = true
    · rw [if_neg (by simpa using halive), (foldl_applyCall_clients _ _ _ _ b).1]
      exact List.mem_map.2 ⟨e, he, if_neg (by simpa using hne)⟩
    · rw [if_pos (by simpa using halive)]
      exact he

theorem pushesOf_cons (cfg : ServerConfig) (t0 : Nat) (x : Nat × Event) (evs : List (Nat × Event)) :
    pushesOf cfg t0 (x :: evs) = pushesOf cfg t0 [x] ++ pushesOf cfg t0 evs := by
  obtain ⟨now, ev⟩ := x
  cases ev <;> simp [pushesOf]

theorem runStep_pushes {cfg : ServerConfig} {b b' : Bridge} {now : Nat} {ev : Event}
    {e : ClientEntry} (he : e ∈ b.clients) (ho : Open e) (hown : NotOwn e.conn ev)
    (h : runStep cfg b now ev = .ok b') :
    { e with sent := e.sent ++ pushesOf cfg e.t0 [(now, ev)] } ∈ b'.clients := by
  cases ev with
  | accept acceptOk peerOk =>
    simp only [pushesOf, List.append_nil, clientEntry_eta, (accept_ok h).1]
    exact List.mem_append_left _ he
  | canReady i frames =>
    simp only [runStep] at h
    split_ifs at h with hi
    · simpa [pushesOf, hi] using onFrames_pushes h he ho
    · cases h; simpa [pushesOf, hi] using he
  | clientRecv conn r canFails =>
    cases h
    simpa [pushesOf] using mem_clientRecv (Ne.symm hown) he
  | peerReset conn =>
    cases h
    simp only [pushesOf, List.append_nil, clientEntry_eta]
    exact List.mem_map.2 ⟨e, he, if_neg (by simpa using Ne.symm hown)⟩

/-- **Every frame read reaches every open session, once and in order.**  Over every run, a
session that is past its handshake, open and writable, and that receives nothing and is not reset
during the run, is still registered at the end with the same receive state, and has been pushed
exactly the frames `run` decoded on its buses, one push per frame in the order read, each stamped
relative to the session's own clock origin: no frame is lost and none is pushed twice. -/
theorem run_pushes_every_frame (cfg : ServerConfig) {b b' : Bridge} {evs : List (Nat × Event)}
    {e : ClientEntry} (he : e ∈ b.clients) (ho : Open e) (hown : ∀ x ∈ evs, NotOwn e.conn x.2)
    (h : run cfg b evs = .ok b') :
    { e with sent := e.sent ++ pushesOf cfg e.t0 evs } ∈ b'.clients := by
  induction evs generalizing b e with
  | nil => cases h; simpa [pushesOf] using he
  | cons ev evs ih =>
    obtain ⟨b₁, hs, h⟩ := run_cons_ok h
    have he₁ := runStep_pushes he ho (hown _ (List.mem_cons_self _ _)) hs
    have := ih he₁ ho (fun x hx => hown x (List.mem_cons_of_mem _ hx)) h
    rwa [pushesOf_cons, ← List.append_assoc]

/-- The session `opening` leaves: connection 0, handshaken at time 1, nothing pushed yet. -/
def handshaken : ClientEntry := ⟨0, ⟨⟨true, []⟩, [], true⟩, 0, true, []⟩

/-- Two frames on bus 0, a second client that connects and handshakes, a third frame. -/
def framesAndSecondClient : List (Nat × Event) :=
  [(2, .canReady 0 [(2, frameAA), (2, frameAA)]), (3, .accept true true),
    (4, .clientRecv 1 (.data [0xE7, 0xE7]) fun _ => false), (5, .canReady 0 [(5, frameAA)])]

/-- The first session gets the three frames, whatever the second one does. -/
theorem run_pushes_every_frame_three :
    ∃ b₁ b', run oneBus Bridge.init opening = .ok b₁ ∧ handshaken ∈ b₁.clients ∧
      Open handshaken ∧ (∀ x ∈ framesAndSecondClient, NotOwn handshaken.conn x.2) ∧
      run oneBus b₁ framesAndSecondClient = .ok b' ∧
      { handshaken with
        sent := handshaken.sent ++ pushesOf oneBus handshaken.t0 framesAndSecondClient } ∈
        b'.clients :=
  have hown : ∀ x ∈ framesAndSecondClient, NotOwn handshaken.conn x.2 := by
    simp [framesAndSecondClient, NotOwn, handshaken]
  ⟨_, _, rfl, List.mem_singleton.2 rfl, ⟨rfl, rfl, rfl⟩, hown, rfl,
    run_pushes_every_frame oneBus (List.mem_singleton.2 rfl) ⟨rfl, rfl, rfl⟩ hown rfl⟩

/-! ## What reaches the CAN sockets -/

/-- A write `_tx_can` makes with `is_fd` left at `False`: a classic frame, packed with
`dlc = min(len, 8)`, for one of the open CAN sockets. -/
def ClassicWrite (cfg : ServerConfig) (w : Nat × Bytes) : Prop :=
  w.1 < cfg.nSocks ∧ ∃ canId data, w.2 = packClassic canId (min data.length 8) data

/-- `b'` has written to the CAN sockets what `b` had, then classic frames only. -/
def WritesClassic (cfg : ServerConfig) (b b' : Bridge) : Prop :=
  ∃ ws, b'.canWrites = b.canWrites ++ ws ∧ ∀ w ∈ ws, ClassicWrite cfg w

theorem WritesClassic.of_eq {cfg : ServerConfig} {b b' : Bridge} (h : b'.canWrites = b.canWrites) :
    WritesClassic cfg b b' :=
  ⟨[], by rw [h, List.append_nil], fun _ h => absurd h (List.not_mem_nil _)⟩

theorem WritesClassic.trans {cfg : ServerConfig} {b₁ b₂ b₃ : Bridge} :
    WritesClassic cfg b₁ b₂ → WritesClassic cfg b₂ b₃ → WritesClassic cfg b₁ b₃
  | ⟨ws, h, hw⟩, ⟨ws', h', hw'⟩ =>
    ⟨ws ++ ws', by rw [h', h, List.append_assoc], fun w hm =>
      (List.mem_append.1 hm).elim (hw w) (hw' w)⟩

theorem txCan_classic {cfg : ServerConfig} {ts bus canId : Nat} {data : Bytes} {w : TxWrite}
    (h : txCan cfg ts bus canId data false = some w) : ClassicWrite cfg (w.sockIdx, w.frame) := by
  simp only [txCan, Bool.false_eq_true, false_and, ↓reduceIte] at h
  split_ifs at h with hidx
  cases h
  refine ⟨?_, canId, data, rfl⟩
  dsimp only
  omega

theorem writesClassic_applyCall (cfg : ServerConfig) (now : Nat) (raises : Nat → Call → Bool)
    (b : Bridge) (kc : Nat × Call) : WritesClassic cfg b (applyCall cfg now raises b kc) := by
  unfold applyCall
  split
  · split
    · next w hw =>
      split_ifs
      · exact .of_eq rfl
      all_goals exact ⟨_, rfl, fun w' hm => by rw [List.mem_singleton.1 hm]; exact txCan_classic hw⟩
    · exact .of_eq rfl
  · exact .of_eq rfl

theorem writesClassic_foldl_applyCall (cfg : ServerConfig) (now : Nat) (raises : Nat → Call → Bool) :
    ∀ (made : List (Nat × Call)) (b : Bridge),
      WritesClassic cfg b (made.foldl (applyCall cfg now raises) b)
  | [], _ => .of_eq rfl
  | kc :: made, b =>
    (writesClassic_applyCall cfg now raises b kc).trans (writesClassic_foldl_applyCall cfg now raises made _)

theorem writesClassic_onFrames {cfg : ServerConfig} {i now : Nat} :
    ∀ {b b' : Bridge} {frames : List (Nat × Bytes)}, onFrames cfg i now b frames = .ok b' →
      WritesClassic cfg b b'
  | b, b', [], h => by cases h; exact .of_eq rfl
  | b, b', f :: fs, h => by
    unfold onFrames at h
    split_ifs at h
    · cases h; exact .of_eq rfl
    · cases hf : onFrame cfg i now b f with
      | error _ => rw [hf] at h; cases h
      | ok b₁ =>
        rw [hf] at h
        obtain ⟨-, -, -, -, hw⟩ := onFrame_ok hf
        exact (WritesClassic.of_eq hw).trans (writesClassic_onFrames h)

theorem writesClassic_runStep {cfg : ServerConfig} {b b' : Bridge} {now : Nat} {ev : Event}
    (h : runStep cfg b now ev = .ok b') : WritesClassic cfg b b' := by
  cases ev with
  | accept acceptOk peerOk =>
    simp only [runStep, accept] at h
    split_ifs at h
    cases h; exact .of_eq rfl
  | canReady i frames =>
    simp only [runStep] at h
    split_ifs at h
    · exact writesClassic_onFrames h
    · cases h; exact .of_eq rfl
  | clientRecv conn r canFails =>
    cases h
    obtain ⟨made, hw, -⟩ := clientRecv_shared cfg now b conn r canFails
    exact (writesClassic_foldl_applyCall cfg now _ made b).trans (.of_eq hw)
  | peerReset conn => cases h; exact .of_eq rfl

/-- **Every CAN write is a classic frame for an open socket.**  Over every run, the bridge's
writes to its CAN sockets only grow by appends, and each write appended is a classic frame
`_tx_can` packed for one of the `n_socks` sockets, whose DLC is at most 8.  This holds with
`--can-fd` too: `_try_consume_send_frame` calls `tx_func` without `is_fd`, so no GVRET client can
send an FD frame. -/
theorem run_writes_only_classic_frames (cfg : ServerConfig) {b b' : Bridge}
    {evs : List (Nat × Event)} (h : run cfg b evs = .ok b') : WritesClassic cfg b b' := by
  induction evs generalizing b with
  | nil => cases h; exact .of_eq rfl
  | cons ev evs ih =>
    obtain ⟨b₁, hs, h⟩ := run_cons_ok h
    exact (writesClassic_runStep hs).trans (ih h)

/-- A server with `--can-fd`, on one interface. -/
def fdServer : ServerConfig := ⟨0, 1, true, [500000], "rx", false, by decide, rfl⟩

/-- A client connects, and in one chunk handshakes and asks for the frame `0x123 [AA BB]` on bus 0. -/
def buildFrame : List (Nat × Event) :=
  [(0, .accept true true),
    (1, .clientRecv 0 (.data [0xE7, 0xE7, 0xF1, 0x00, 0x23, 0x01, 0, 0, 0, 2, 0xAA, 0xBB]) fun _ => false)]

/-- On an FD server the requested frame is written as one classic frame of 16 bytes. -/
theorem run_writes_only_classic_frames_fd :
    ∃ b', run fdServer Bridge.init buildFrame = .ok b' ∧
      b'.canWrites.map (fun w => w.2.length) = [16] ∧ WritesClassic fdServer Bridge.init b' :=
  ⟨_, rfl, rfl, @run_writes_only_classic_frames fdServer _ _ buildFrame rfl⟩

end WireTap.Bridge.Runs
