import WireTap.Bridge.Rows

/-! # Echoing a push back

A client that turns a push back into a `BUILD_FRAME` request sends the push's 32-bit id field,
the bus from the high nibble of the push's bus/DLC byte, the DLC from its low nibble, and the
payload (`echoRequest`).  `_try_consume_send_frame` parses it and `_tx_can` routes it to
`can_socks[bus - bus_offset]` (`echo`).

The push keeps only `bus & 0x0F`, while `_tx_can` routes on the full bus number, so the frame a
socket's push comes back as goes to socket `(bus_offset + i) % 16 - bus_offset`
(`echo_pushMsg`).  That is socket `i` exactly when `bus_offset + i < 16`. -/

namespace WireTap.Bridge.Echo

open WireTap.ByteString WireTap.Can.Id WireTap.Can.Dlc WireTap.Can.Kernel WireTap.Gvret.Push
open WireTap.Gvret.Session WireTap.Bridge.Server WireTap.Bridge.Rows

/-- The `BUILD_FRAME` request a client makes of a push. -/
def echoRequest (push : Bytes) : Bytes :=
  let bd := (push.getD 10 0).toNat
  [0xF1, 0x00] ++ slice push 6 10 ++ [UInt8.ofNat (bd / 16), UInt8.ofNat (bd % 16)] ++
    slice push 11 (11 + bd % 16)

/-- What `_try_consume_send_frame` and `_tx_can` make of the request. -/
def echo (cfg : ServerConfig) (ts : Nat) (push : Bytes) : Option TxWrite :=
  match tryConsumeSendFrame (echoRequest push) with
  | some (_, .tx bus canId data) => txCan cfg ts bus canId data false
  | _ => none

/-- The socket `_tx_can` routes a bus number to, if any. -/
def routeOf (cfg : ServerConfig) (bus : Nat) : Option Nat :=
  if cfg.busOffset ≤ bus ∧ bus - cfg.busOffset < cfg.nSocks then some (bus - cfg.busOffset)
  else none

theorem routeOf_mod_eq_some_iff (cfg : ServerConfig) {i : Nat} (hi : i < cfg.nSocks) :
    routeOf cfg ((cfg.busOffset + i) % 16) = some i ↔ cfg.busOffset + i < 16 := by
  unfold routeOf
  split_ifs with h
  · rw [Option.some.injEq]; omega
  · exact ⟨fun h' => (nomatch h'), fun hlt => (h ⟨by omega, by omega⟩).elim⟩

theorem withEff_idem (c : Nat) :
    withEff (arbIdOf (withEff (arbIdOf c) (extendedOf c)))
      (extendedOf (withEff (arbIdOf c) (extendedOf c))) = withEff (arbIdOf c) (extendedOf c) := by
  have ha := arbIdOf_lt c
  have hg := withEff_eq (lt_trans ha (by decide)) (extendedOf c)
  have hlt : withEff (arbIdOf c) (extendedOf c) < 2 ^ 32 := by rw [hg]; split <;> omega
  have hx : extendedOf (withEff (arbIdOf c) (extendedOf c)) = extendedOf c := by
    rw [Bool.eq_iff_iff, extendedOf_iff hlt, hg]
    cases extendedOf c
    · simp only [Bool.false_eq_true, ↓reduceIte, add_zero, iff_false, not_le]; omega
    · simp
  have h11 : extendedOf c = false → arbIdOf c < 2 ^ 11 := by
    intro hf; rw [arbIdOf_eq, hf]; simp only [Bool.false_eq_true, if_false]; omega
  have ha' : arbIdOf (withEff (arbIdOf c) (extendedOf c)) = arbIdOf c := by
    rw [arbIdOf_eq, hx, hg]
    cases hc : extendedOf c
    · have := h11 hc; simp; omega
    · simp; omega
  rw [ha', hx]

theorem withEff_arbIdOf_self {c : Nat} (hc : c < 2 ^ 32) (hrtr : c &&& canRtrFlag = 0)
    (herr : c &&& canErrFlag = 0) (hsff : extendedOf c = false → c < 2 ^ 11) :
    withEff (arbIdOf c) (extendedOf c) = c := by
  have h30 : c.testBit 30 = false := by
    have := land_two_pow c 30; simp only [canRtrFlag] at hrtr
    rw [show (0x40000000 : Nat) = 2 ^ 30 from rfl, this] at hrtr; split at hrtr <;> simp_all
  have h29 : c.testBit 29 = false := by
    have := land_two_pow c 29; simp only [canErrFlag] at herr
    rw [show (0x20000000 : Nat) = 2 ^ 29 from rfl, this] at herr; split at herr <;> simp_all
  rw [Nat.testBit_to_div_mod, decide_eq_false_iff_not] at h30 h29
  rw [withEff_eq (lt_trans (arbIdOf_lt c) (by decide)), arbIdOf_eq]
  cases hx : extendedOf c
  · have := hsff hx; simp; omega
  · have := (extendedOf_iff hc).mp hx; simp; omega

theorem echoRequest_push {t g p : Bytes} (ht : t.length = 4) (hg : g.length = 4) (bd : UInt8)
    (hp : p.length = bd.toNat % 16) :
    echoRequest ([0xF1, 0x00] ++ t ++ g ++ [bd] ++ p ++ [0x00]) =
      [0xF1, 0x00] ++ g ++ [UInt8.ofNat (bd.toNat / 16), UInt8.ofNat (bd.toNat % 16)] ++ p := by
  match t, ht, g, hg with
  | [_, _, _, _], _, [_, _, _, _], _ =>
    simp [echoRequest, ByteString.slice, ← hp]

theorem tryConsumeSendFrame_request {g : Bytes} (hg : g.length = 4) {bus dlc : Nat}
    (hbus : bus < 256) (hdlc : dlc ≤ 8) {p : Bytes} (hp : p.length = dlc) (rest : Bytes) :
    tryConsumeSendFrame ([0xF1, 0x00] ++ g ++ [UInt8.ofNat bus, UInt8.ofNat dlc] ++ p ++ rest) =
      some (rest, .tx bus (withEff (arbIdOf (fromBytesLE g)) (extendedOf (fromBytesLE g))) p) := by
  have hb : (UInt8.ofNat bus).toNat = bus := by
    simp only [UInt8.toNat, UInt8.ofNat, BitVec.toNat_ofNat]; omega
  have hd : (UInt8.ofNat dlc).toNat = dlc := by
    simp only [UInt8.toNat, UInt8.ofNat, BitVec.toNat_ofNat]; omega
  match g, hg with
  | [g0, g1, g2, g3], _ =>
    show tryConsumeSendFrame
      (0xF1 :: 0x00 :: ([g0, g1, g2, g3, UInt8.ofNat bus, UInt8.ofNat dlc] ++ (p ++ rest))) = _
    rw [tryConsumeSendFrame_cons, if_pos (by
      simp only [List.cons_append, List.nil_append, List.length_cons, List.length_append, hp,
        List.getD_cons_succ, List.getD_cons_zero, hd]
      omega)]
    simp only [List.cons_append, List.nil_append, List.getD_cons_succ, List.getD_cons_zero, hb, hd,
      List.take_succ_cons, List.take_zero, Nat.min_eq_left hdlc, List.take_left' hp,
      List.drop_succ_cons, List.drop_zero, Nat.add_comm 6 dlc, ← List.drop_drop, List.drop_left' hp]

theorem echo_pushMsg_classic (cfg : ServerConfig) (ts e bus c : Nat) {data : Bytes}
    (hlen : data.length ≤ 8) :
    echo cfg ts (pushMsg e c bus data false) =
      txCan cfg ts (bus % 16) (withEff (arbIdOf c) (extendedOf c)) data false := by
  have hg := withEff_eq (lt_trans (arbIdOf_lt c) (by decide)) (extendedOf c)
  have ha := arbIdOf_lt c
  have hglt : withEff (arbIdOf c) (extendedOf c) < 2 ^ 32 := by rw [hg]; split <;> omega
  have hbd : (UInt8.ofNat (busAndDlc bus (pushDlc data false))).toNat =
      bus % 16 * 16 + data.length := by
    simp only [busAndDlc_eq, pushDlc, pushLen, Bool.false_eq_true, if_false, UInt8.toNat,
      UInt8.ofNat, BitVec.toNat_ofNat]
    omega
  have hpay : data.take (pushLen data false) = data := by
    simp only [pushLen, Bool.false_eq_true, if_false]; exact List.take_of_length_le (by omega)
  have hreq := echoRequest_push (length_toBytesLE 4 (e &&& 0xFFFFFFFF))
    (length_toBytesLE 4 (withEff (arbIdOf c) (extendedOf c)))
    (UInt8.ofNat (busAndDlc bus (pushDlc data false))) (p := data) (by rw [hbd]; omega)
  rw [hbd, show (bus % 16 * 16 + data.length) / 16 = bus % 16 by omega,
    show (bus % 16 * 16 + data.length) % 16 = data.length by omega] at hreq
  have htry := tryConsumeSendFrame_request (length_toBytesLE 4 (withEff (arbIdOf c) (extendedOf c)))
    (show bus % 16 < 256 by omega) hlen rfl []
  rw [fromBytesLE_toBytesLE_of_lt hglt, withEff_idem, List.append_nil] at htry
  simp only [echo, pushMsg, hpay, hreq, htry]

theorem echo_pushMsg_route (cfg : ServerConfig) (i ts e : Nat) {frame : Bytes}
    (hl : frame.length = 16) (hdlc : (frame.getD 4 0).toNat ≤ 8) :
    ∃ d, decodeFrame frame = some d ∧
      (echo cfg ts (pushMsg e d.canId (cfg.busOffset + i) d.data d.isFd)).map
          (fun w => (w.sockIdx, decodeFrame w.frame)) =
        (routeOf cfg ((cfg.busOffset + i) % 16)).map
          fun j => (j, some ⟨withEff (arbIdOf d.canId) (extendedOf d.canId), d.dlc, d.data, false⟩) := by
  refine ⟨_, decodeFrame_classic hl, ?_⟩
  have hlen : (slice frame 8 (8 + min (frame.getD 4 0).toNat 8)).length = (frame.getD 4 0).toNat := by
    rw [length_slice, hl]; omega
  generalize fromBytesLE (frame.take 4) = c
  generalize slice frame 8 (8 + min (frame.getD 4 0).toNat 8) = data at hlen ⊢
  generalize (frame.getD 4 0).toNat = k at hlen hdlc ⊢
  have hg := withEff_eq (lt_trans (arbIdOf_lt c) (by decide)) (extendedOf c)
  have ha := arbIdOf_lt c
  have hglt : withEff (arbIdOf c) (extendedOf c) < 2 ^ 32 := by rw [hg]; split <;> omega
  rw [echo_pushMsg_classic cfg ts e _ _ (by dsimp only; omega)]
  simp only [txCan, routeOf, Bool.false_eq_true, false_and, if_false]
  split_ifs with h1 h2 h2
  · rw [Option.map_some', Option.map_some', decodeFrame_packClassic hglt, hlen,
      Nat.min_eq_left hdlc, List.take_of_length_le (by omega)]
    congr 2; dsimp only; omega
  · omega
  · omega
  · rfl

/-- **Where an echoed push goes.**  For a classic frame `run` reads on `can_socks[i]`, the echo of
its push is routed by the bus nibble, `(bus_offset + i) % 16`: it is written to the socket that
bus number routes to, if any, as a frame with the received DLC and payload and the id rebuilt from
the received extended flag and arbitration id; otherwise it is dropped.  For a socket index
`i < n`, that socket is `can_socks[i]` exactly when `bus_offset + i < 16`; and the rebuilt id is
the received `can_id` when RTR and ERR are clear and a standard id fits in 11 bits. -/
theorem echo_pushMsg (cfg : ServerConfig) (i ts e : Nat) {frame : Bytes} (hl : frame.length = 16)
    (hdlc : (frame.getD 4 0).toNat ≤ 8) :
    ∃ d, decodeFrame frame = some d ∧
      (echo cfg ts (pushMsg e d.canId (cfg.busOffset + i) d.data d.isFd)).map
          (fun w => (w.sockIdx, decodeFrame w.frame)) =
        (routeOf cfg ((cfg.busOffset + i) % 16)).map
          (fun j => (j, some ⟨withEff (arbIdOf d.canId) (extendedOf d.canId), d.dlc, d.data, false⟩)) ∧
      (i < cfg.nSocks → (routeOf cfg ((cfg.busOffset + i) % 16) = some i ↔ cfg.busOffset + i < 16)) ∧
      (d.canId &&& canRtrFlag = 0 → d.canId &&& canErrFlag = 0 →
        (extendedOf d.canId = false → d.canId < 2 ^ 11) →
        withEff (arbIdOf d.canId) (extendedOf d.canId) = d.canId) := by
  obtain ⟨d, hd, hmap⟩ := echo_pushMsg_route cfg i ts e hl hdlc
  have hid : d.canId < 2 ^ 32 := by
    rw [decodeFrame_classic hl] at hd
    cases hd
    simpa [hl] using fromBytesLE_lt (frame.take 4)
  exact ⟨d, hd, hmap, routeOf_mod_eq_some_iff cfg, withEff_arbIdOf_self hid⟩

/-- The frame `0x123 [AA BB CC]` read on the only interface is echoed back to it. -/
theorem echo_pushMsg_scenario :
    ∃ d, decodeFrame [0x23, 1, 0, 0, 3, 0, 0, 0, 0xAA, 0xBB, 0xCC, 0, 0, 0, 0, 0] = some d ∧
      (echo oneBus 0 (pushMsg 0 d.canId (oneBus.busOffset + 0) d.data d.isFd)).map
          (fun w => (w.sockIdx, decodeFrame w.frame)) =
        (routeOf oneBus ((oneBus.busOffset + 0) % 16)).map
          (fun j => (j, some ⟨withEff (arbIdOf d.canId) (extendedOf d.canId), d.dlc, d.data, false⟩)) ∧
      (0 < oneBus.nSocks →
        (routeOf oneBus ((oneBus.busOffset + 0) % 16) = some 0 ↔ oneBus.busOffset + 0 < 16)) ∧
      (d.canId &&& canRtrFlag = 0 → d.canId &&& canErrFlag = 0 →
        (extendedOf d.canId = false → d.canId < 2 ^ 11) →
        withEff (arbIdOf d.canId) (extendedOf d.canId) = d.canId) :=
  echo_pushMsg oneBus 0 0 0 rfl (by decide)

/-- A bus offset of 16 with one interface: the push of bus 16 carries bus 0. -/
def offset16 : ServerConfig := ⟨16, 1, false, [500000], "rx", true, by decide, rfl⟩

/-- The frame `0x123 [AA]` read on the only socket of `offset16` is pushed with bus nibble 0, and
its echo is dropped instead of going back to that socket. -/
theorem echo_dropped_at_offset16 :
    (decodeFrame [0x23, 1, 0, 0, 1, 0, 0, 0, 0xAA, 0, 0, 0, 0, 0, 0, 0]).bind
      (fun d => echo offset16 0 (pushMsg 0 d.canId (offset16.busOffset + 0) d.data d.isFd)) =
      none := by
  decide

end WireTap.Bridge.Echo
