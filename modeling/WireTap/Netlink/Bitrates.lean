import WireTap.Netlink.Attrs
import WireTap.Bridge.BusParams

/-! # Bit rates from netlink

`detect_bitrates` reads an interface's `IFLA_INFO_DATA`, splits it with `_parse_tlvs`, and walks
the attributes: each `IFLA_CAN_BITTIMING` or `IFLA_CAN_DATA_BITTIMING` of at least four bytes
overwrites the nominal or the data rate with its first `u32`.  `CanTcpServer.__init__` keeps the
nominal rates as `bus_speeds`, which `reply_canbus_params` advertises.

* the loop keeps, for each of the two types, the last attribute that carries a rate
  (`foldl_bitrateStep`), so on any stream the grammar accepts `detect_bitrates` returns the rates
  of the last such attributes, or its defaults (`detectBitrates_of_encodes`);
* every rate it returns fits in a `u32` (`detectBitrates_lt`), so at bus offset `0` the
  `GET_BUS_PARAMS` reply is always sent, with the rates detected on interfaces 0 and 1
  (`getBusParams_reports_detected_rates`).
-/

namespace WireTap.Netlink.Bitrates

open WireTap.ByteString WireTap.Netlink.Attrs WireTap.Gvret.Session WireTap.Bridge.Server
open WireTap.Bridge.BusParams

/-! ## The loop -/

/-- `IFLA_CAN_BITTIMING`. -/
def iflaCanBittiming : Nat := 1

/-- `IFLA_CAN_DATA_BITTIMING`. -/
def iflaCanDataBittiming : Nat := 9

/-- One iteration of `for t, v in tlvs`: an attribute of either type with at least four bytes
sets `nominal` or `data` to `struct.unpack_from("<I", v, 0)`. -/
def bitrateStep (acc : Nat × Nat) (tv : Nat × Bytes) : Nat × Nat :=
  if (tv.1 = iflaCanBittiming ∨ tv.1 = iflaCanDataBittiming) ∧ 4 ≤ tv.2.length then
    let br := fromBytesLE (tv.2.take 4)
    if tv.1 = iflaCanBittiming then (br, acc.2) else (acc.1, br)
  else acc

/-- **`detect_bitrates`** with its `default`, given `IFLA_INFO_DATA` as bytes: `none` when the
lookup raised or found no such attribute, and then, as for empty data, `(default, 0)`. -/
def detectBitrates (default : Nat) : Option Bytes → Nat × Nat
  | none => (default, 0)
  | some raw => if raw.isEmpty then (default, 0) else (parseTlvs raw).foldl bitrateStep (default, 0)

/-! ## The last attribute wins -/

/-- What the attributes say about type `t`: the first four bytes, little-endian, of the last
attribute of type `t` that holds at least four. -/
def rateOf (t : Nat) (attrs : List (Nat × Bytes)) : Option Nat :=
  (attrs.filter fun a => a.1 = t ∧ 4 ≤ a.2.length).getLast?.map fun a => fromBytesLE (a.2.take 4)

theorem rateOf_append_singleton (t : Nat) (attrs : List (Nat × Bytes)) (a : Nat × Bytes) :
    rateOf t (attrs ++ [a]) =
      if a.1 = t ∧ 4 ≤ a.2.length then some (fromBytesLE (a.2.take 4)) else rateOf t attrs := by
  unfold rateOf
  rw [List.filter_append, List.filter_singleton]
  split_ifs with h
  · rw [decide_eq_true h, cond_true, List.getLast?_append_of_ne_nil _ (List.cons_ne_nil _ _)]
    rfl
  · rw [decide_eq_false h, cond_false, List.append_nil]

theorem rateOf_lt {t r : Nat} {attrs : List (Nat × Bytes)} (h : rateOf t attrs = some r) :
    r < 2 ^ 32 := by
  obtain ⟨a, ha, rfl⟩ := Option.map_eq_some'.1 h
  have h4 := (of_decide_eq_true (List.mem_filter.1 (List.mem_of_getLast?_eq_some ha)).2).2
  have := fromBytesLE_lt (a.2.take 4)
  rwa [List.length_take, min_eq_left h4] at this

/-- **The loop is "last attribute wins"**: from `(nominal, data)`, the attributes leave the rate of
their last `IFLA_CAN_BITTIMING` and of their last `IFLA_CAN_DATA_BITTIMING`, where there is one. -/
theorem foldl_bitrateStep (attrs : List (Nat × Bytes)) (nominal data : Nat) :
    attrs.foldl bitrateStep (nominal, data) =
      ((rateOf iflaCanBittiming attrs).getD nominal, (rateOf iflaCanDataBittiming attrs).getD data) := by
  induction attrs using List.reverseRecOn with
  | nil => rfl
  | append_singleton attrs a ih =>
    rw [List.foldl_append, ih, List.foldl_cons, List.foldl_nil, rateOf_append_singleton,
      rateOf_append_singleton]
    obtain ⟨t, v⟩ := a
    by_cases hv : 4 ≤ v.length
    · by_cases h1 : t = iflaCanBittiming
      · simp [bitrateStep, h1, hv, iflaCanBittiming, iflaCanDataBittiming]
      · by_cases h9 : t = iflaCanDataBittiming
        · simp [bitrateStep, h9, hv, iflaCanBittiming, iflaCanDataBittiming]
        · simp [bitrateStep, h1, h9]
    · simp [bitrateStep, hv]

/-- **`detect_bitrates` on a well-formed attribute stream**: the nominal rate is that of the last
`IFLA_CAN_BITTIMING` of at least four bytes, or `default`; the data rate that of the last such
`IFLA_CAN_DATA_BITTIMING`, or `0`. -/
theorem detectBitrates_of_encodes (default : Nat) {attrs : List (Nat × Bytes)} {raw : Bytes}
    (h : Encodes attrs raw) :
    detectBitrates default (some raw) =
      ((rateOf iflaCanBittiming attrs).getD default, (rateOf iflaCanDataBittiming attrs).getD 0) := by
  rw [detectBitrates, ← parseTlvs_of_encodes h, foldl_bitrateStep]
  split_ifs with he
  · rw [List.isEmpty_iff.1 he]; rfl
  · rfl

/-- A bit timing: the rate, then seven more `u32` fields, zero here. -/
def bittiming (rate : Nat) : Bytes := toBytesLE 4 rate ++ List.replicate 28 0

/-- An FD interface at 500 kbit/s nominal and 2 Mbit/s data, as the kernel lists it. -/
def fdInfoData : Bytes :=
  attrBytes iflaCanBittiming (bittiming 500000) ++ [] ++ attrBytes iflaCanDataBittiming (bittiming 2000000)

theorem detectBitrates_of_encodes_fd :
    Encodes [(iflaCanBittiming, bittiming 500000), (iflaCanDataBittiming, bittiming 2000000)]
        fdInfoData ∧
      detectBitrates 250000 (some fdInfoData) =
        ((rateOf iflaCanBittiming [(iflaCanBittiming, bittiming 500000),
            (iflaCanDataBittiming, bittiming 2000000)]).getD 250000,
          (rateOf iflaCanDataBittiming [(iflaCanBittiming, bittiming 500000),
            (iflaCanDataBittiming, bittiming 2000000)]).getD 0) :=
  have h : Encodes [(iflaCanBittiming, bittiming 500000), (iflaCanDataBittiming, bittiming 2000000)]
      fdInfoData :=
    .padded _ _ [] (by decide) (by decide) (by decide) (.bare _ _ (by decide) (by decide))
  ⟨h, detectBitrates_of_encodes 250000 h⟩

/-! ## Into the bus parameters -/

theorem detectBitrates_lt {default : Nat} (hd : default < 2 ^ 32) (raw : Option Bytes) :
    (detectBitrates default raw).1 < 2 ^ 32 ∧ (detectBitrates default raw).2 < 2 ^ 32 := by
  have hget : ∀ t d attrs, d < 2 ^ 32 → (rateOf t attrs).getD d < 2 ^ 32 := fun t d attrs hd' => by
    cases h : rateOf t attrs with
    | none => exact hd'
    | some r => exact rateOf_lt h
  cases raw with
  | none => exact ⟨hd, Nat.two_pow_pos 32⟩
  | some raw =>
    rw [detectBitrates]
    split_ifs
    · exact ⟨hd, Nat.two_pow_pos 32⟩
    · rw [foldl_bitrateStep]; exact ⟨hget _ _ _ hd, hget _ _ _ (Nat.two_pow_pos 32)⟩

/-- `CanTcpServer.__init__`'s `bus_speeds`: the nominal rate `detect_bitrates(ifn)` finds on each
interface, with its default of 500 kbit/s. -/
def detectedSpeeds (infos : List (Option Bytes)) : List Nat :=
  infos.map fun info => (detectBitrates 500000 info).1

theorem getD_detectedSpeeds_lt (infos : List (Option Bytes)) (b : Nat) :
    (detectedSpeeds infos).getD b 0 < 2 ^ 32 := by
  rw [List.getD_eq_getElem?_getD]
  cases h : (detectedSpeeds infos)[b]? with
  | none => exact Nat.two_pow_pos 32
  | some s =>
    obtain ⟨info, -, rfl⟩ := List.mem_map.1 (List.getElem?_mem h)
    exact (detectBitrates_lt (by decide) info).1

/-- **`GET_BUS_PARAMS` reports the detected rates.**  For every server at bus offset `0` whose
`bus_speeds` are what `detect_bitrates` found, whatever the interfaces' netlink data, the reply is
sent and advertises on bus `b` the nominal rate detected on interface `b`, or `0` past the last
interface. -/
theorem getBusParams_reports_detected_rates (cfg : ServerConfig) {infos : List (Option Bytes)}
    (hoff : cfg.busOffset = 0) (hsp : cfg.busSpeeds = detectedSpeeds infos) :
    ∃ out, replyCanbusParams cfg.busCount cfg.busSpeeds = some out ∧
      ∀ b < 2, speedOf out b = (detectedSpeeds infos).getD b 0 := by
  have hc : cfg.busCount = cfg.busSpeeds.length := by
    rw [ServerConfig.busCount, hoff, cfg.busSpeeds_length, Nat.zero_add]
  rw [hc, hsp]
  obtain ⟨out, hout⟩ := Option.isSome_iff_exists.1 (replyCanbusParams_isSome
    (advertisedSpeed_length _ 0) (advertisedSpeed_length _ 1) (getD_detectedSpeeds_lt infos 0)
    (getD_detectedSpeeds_lt infos 1))
  refine ⟨out, hout, fun b hb => ?_⟩
  have := ((replyCanbusParams_eq_some hout).2.2 b hb).2
  rw [advertisedSpeed_length] at this
  exact (Option.some.inj this).symm

/-- Two interfaces: the FD one of `fdInfoData`, and one whose lookup raised. -/
def twoBuses : ServerConfig :=
  ⟨0, 2, true, detectedSpeeds [some fdInfoData, none], "rx", false, by decide, rfl⟩

theorem getBusParams_reports_detected_rates_two :
    twoBuses.busOffset = 0 ∧ twoBuses.busSpeeds = detectedSpeeds [some fdInfoData, none] ∧
      ∃ out, replyCanbusParams twoBuses.busCount twoBuses.busSpeeds = some out ∧
        ∀ b < 2, speedOf out b = (detectedSpeeds [some fdInfoData, none]).getD b 0 :=
  ⟨rfl, rfl, getBusParams_reports_detected_rates twoBuses rfl rfl⟩

end WireTap.Netlink.Bitrates
