import WireTap.Bridge.Server

/-! # The bus parameters a client is told

`GET_BUS_PARAMS` (`F1 06`) is answered by `reply_canbus_params` from `bus_count` and `bus_speeds`,
both fixed by `CanTcpServer.__init__`: `bus_count = bus_offset + len(can_socks)`, and one detected
nominal bit rate per interface.  For each of the GVRET buses 0 and 1 the reply has a flags byte and
a little-endian `u32` speed (`flagsOf`, `speedOf`).

`BusParamsSpec` is what the specification asks of that reply.  A bus an interface serves has the
enabled bit and that interface's bit rate; a bus no interface serves has zeros.
`reply_canbus_params` counts bus `b` as enabled when `b < bus_count` and reads `bus_speeds[b]`, so
it uses the GVRET bus number as an interface index.  This agrees with the specification exactly at
offset `0` (`replyCanbusParams_meets_spec_iff`).  At offset `1`, with one interface the reply
raises `IndexError`, and with two it advertises bus 0 at the first interface's speed.

* the reply's fields: `replyCanbusParams_eq_some`, and when the reply is sent:
  `replyCanbusParams_isSome`;
* offset `0`: every bus number below `bus_count` is an interface index (`advertisedSpeed_length`).
-/

namespace WireTap.Bridge.BusParams

open WireTap.ByteString WireTap.Gvret.Session WireTap.Bridge.Server

/-! ## The reply -/

/-- The flags byte of GVRET bus `b` in a `GET_BUS_PARAMS` reply. -/
def flagsOf (out : Bytes) (b : Nat) : UInt8 := out.getD (2 + 5 * b) 0

/-- The little-endian `u32` speed of GVRET bus `b` in a `GET_BUS_PARAMS` reply. -/
def speedOf (out : Bytes) (b : Nat) : Nat :=
  fromBytesLE (ByteString.slice out (3 + 5 * b) (7 + 5 * b))

/-- **The reply, field by field**: `F1 06` and ten bytes, and for buses 0 and 1 the flags byte and
the speed that `advertisedFlags` and `advertisedSpeed` pick. -/
theorem replyCanbusParams_eq_some {c : Nat} {sp : List Nat} {out : Bytes}
    (h : replyCanbusParams c sp = some out) :
    out.length = 12 ∧ out.take 2 = [0xF1, 0x06] ∧
      ∀ b < 2, flagsOf out b = advertisedFlags c b ∧ advertisedSpeed c sp b = some (speedOf out b) := by
  simp only [replyCanbusParams, Option.bind_eq_bind, Option.bind_eq_some] at h
  obtain ⟨s0, h0, s1, h1, h⟩ := h
  split_ifs at h with hs
  cases h
  obtain ⟨a0, a1, a2, a3, ha⟩ : ∃ a0 a1 a2 a3, toBytesLE 4 s0 = [a0, a1, a2, a3] := ⟨_, _, _, _, rfl⟩
  obtain ⟨b0, b1, b2, b3, hb⟩ : ∃ b0 b1 b2 b3, toBytesLE 4 s1 = [b0, b1, b2, b3] := ⟨_, _, _, _, rfl⟩
  have ea : fromBytesLE [a0, a1, a2, a3] = s0 := by
    rw [← ha]; exact fromBytesLE_toBytesLE_of_lt (lt_of_lt_of_eq hs.1 rfl)
  have eb : fromBytesLE [b0, b1, b2, b3] = s1 := by
    rw [← hb]; exact fromBytesLE_toBytesLE_of_lt (lt_of_lt_of_eq hs.2 rfl)
  rw [ha, hb]
  refine ⟨rfl, rfl, fun b hb2 => ?_⟩
  match b, hb2 with
  | 0, _ => exact ⟨rfl, h0.trans (congrArg some ea.symm)⟩
  | 1, _ => exact ⟨rfl, h1.trans (congrArg some eb.symm)⟩

theorem replyCanbusParams_isSome {c : Nat} {sp : List Nat} {s0 s1 : Nat}
    (h0 : advertisedSpeed c sp 0 = some s0) (h1 : advertisedSpeed c sp 1 = some s1)
    (hs0 : s0 < 2 ^ 32) (hs1 : s1 < 2 ^ 32) : (replyCanbusParams c sp).isSome := by
  simp only [replyCanbusParams, Option.bind_eq_bind, h0, h1, Option.some_bind]
  rw [if_pos ⟨hs0, hs1⟩]
  rfl

theorem advertisedSpeed_length (sp : List Nat) (b : Nat) :
    advertisedSpeed sp.length sp b = some (sp.getD b 0) := by
  unfold advertisedSpeed
  split_ifs with h
  · rw [List.get?_eq_getElem?, List.getElem?_eq_getElem (by omega), List.getD_eq_getElem?_getD,
      List.getElem?_eq_getElem (by omega), Option.getD_some]
  · rw [List.getD_eq_getElem?_getD, List.getElem?_eq_none (by omega), Option.getD_none]

/-! ## Against the specification -/

/-- **What the specification asks of the `GET_BUS_PARAMS` reply** for `cfg`: it is sent, it is
`F1 06` and ten bytes, and GVRET bus `b` (`0` or `1`) has the enabled bit and the nominal bit rate
of interface `b - bus_offset` when `bus_offset ≤ b < bus_offset + n`, and a zero flags byte and a
zero speed otherwise. -/
def BusParamsSpec (cfg : ServerConfig) : Option Bytes → Prop
  | none => False
  | some out => out.length = 12 ∧ out.take 2 = [0xF1, 0x06] ∧
    ∀ b < 2, if cfg.busOffset ≤ b ∧ b < cfg.busCount then
        (flagsOf out b).toNat.testBit 0 = true ∧
          speedOf out b = cfg.busSpeeds.getD (b - cfg.busOffset) 0
      else flagsOf out b = 0 ∧ speedOf out b = 0

instance (cfg : ServerConfig) : DecidablePred (BusParamsSpec cfg) := fun
  | none => inferInstanceAs (Decidable False)
  | some _ => inferInstanceAs (Decidable (_ ∧ _ ∧ _))

/-- **`reply_canbus_params` meets the specification exactly at bus offset `0`**, for every
configuration `CanTcpServer` admits whose bit rates fit in a `u32`.  At a positive offset bus 0 is
served by no interface, but the reply either raises or marks bus 0 enabled. -/
theorem replyCanbusParams_meets_spec_iff (cfg : ServerConfig)
    (hs : ∀ s ∈ cfg.busSpeeds, s < 2 ^ 32) :
    BusParamsSpec cfg (replyCanbusParams cfg.busCount cfg.busSpeeds) ↔ cfg.busOffset = 0 := by
  have hn := cfg.nSocks_pos
  constructor
  · intro h
    by_contra hoff
    cases hr : replyCanbusParams cfg.busCount cfg.busSpeeds with
    | none => rw [hr] at h; exact h
    | some out =>
      rw [hr] at h
      have hflag := ((replyCanbusParams_eq_some hr).2.2 0 (by decide)).1
      have hbus0 := h.2.2 0 (by decide)
      rw [if_neg (by omega)] at hbus0
      rw [hbus0.1, advertisedFlags, if_pos (by simp only [ServerConfig.busCount]; omega)] at hflag
      exact absurd hflag (by decide)
  · intro hoff
    have hc : cfg.busCount = cfg.busSpeeds.length := by
      rw [ServerConfig.busCount, hoff, cfg.busSpeeds_length, Nat.zero_add]
    have hlt : ∀ b, cfg.busSpeeds.getD b 0 < 2 ^ 32 := fun b => by
      rw [List.getD_eq_getElem?_getD]
      cases h : cfg.busSpeeds[b]? with
      | none => decide
      | some s => exact hs s (List.getElem?_mem h)
    rw [hc]
    obtain ⟨out, hr⟩ := Option.isSome_iff_exists.1 (replyCanbusParams_isSome
      (advertisedSpeed_length _ 0) (advertisedSpeed_length _ 1) (hlt 0) (hlt 1))
    obtain ⟨hlen, htake, hbus⟩ := replyCanbusParams_eq_some hr
    rw [hr]
    refine ⟨hlen, htake, fun b hb2 => ?_⟩
    obtain ⟨hf, hsp⟩ := hbus b hb2
    rw [advertisedSpeed_length, Option.some.injEq] at hsp
    rw [hf, ← hsp, hoff, hc, Nat.sub_zero, advertisedFlags]
    by_cases hserved : cfg.busSpeeds.length ≥ b + 1
    · rw [if_pos ⟨Nat.zero_le b, hserved⟩, if_pos hserved]
      exact ⟨rfl, rfl⟩
    · rw [if_neg (fun h => hserved h.2), if_neg hserved,
        List.getD_eq_getElem?_getD, List.getElem?_eq_none (by omega)]
      exact ⟨rfl, rfl⟩

/-- One interface at bus offset 1, classic CAN at 500 kbit/s. -/
def offsetOne : ServerConfig := ⟨1, 1, false, [500000], "rx", true, by decide, rfl⟩

/-- At bus offset 1 with one interface, `bus_count` is 2 and the reply reads `bus_speeds[1]`: it
raises, and the specification is not met. -/
theorem replyCanbusParams_raises_at_offset_one :
    replyCanbusParams offsetOne.busCount offsetOne.busSpeeds = none ∧
      ¬BusParamsSpec offsetOne (replyCanbusParams offsetOne.busCount offsetOne.busSpeeds) :=
  ⟨rfl, fun h => absurd ((replyCanbusParams_meets_spec_iff offsetOne (by decide)).1 h) (by decide)⟩

end WireTap.Bridge.BusParams
