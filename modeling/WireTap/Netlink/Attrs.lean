import WireTap.ByteString

/-! # Netlink attributes

`detect_bitrates` finds an interface's bit rates in its netlink attributes with `_parse_tlvs`, a
`while` loop over an offset `i` into the attribute stream.  At `i` it reads the native `u16`
length and type (little-endian, as on the hosts the server runs on); it breaks on a length below
`4` or one running past the end, and otherwise takes the value and moves on by the length rounded
up to a multiple of four.  The loop is modelled with fuel, one iteration per byte.

* one iteration, on the bytes from the offset on: `headAttr`; the loop is `headAttr` followed by
  the loop on what it leaves (`parseTlvs_eq`);
* an iteration moves on by at least four bytes, so the fuel never stops the loop
  (`parseTlvsFrom_fuel`);
* the grammar `Encodes attrs raw`: each attribute as its length, its type and its value, padded
  with bytes of any value to a multiple of four, the last one possibly unpadded;
* the parser reads back what the grammar writes (`parseTlvs_of_encodes`), and on any byte string
  returns the attributes of the longest prefix the grammar accepts (`parseTlvs_longest`).
-/

namespace WireTap.Netlink.Attrs

open WireTap.ByteString

/-! ## The loop -/

/-- `align4 = lambda x: (x + 3) & ~3`: `x + 3` with its two low bits cleared. -/
def align4 (x : Nat) : Nat := (x + 3) - (x + 3) % 4

theorem le_align4 (x : Nat) : x ≤ align4 x := by unfold align4; omega

/-- **The loop of `_parse_tlvs`** from the offset `i`, for at most `fuel` iterations. -/
def parseTlvsFrom (raw : Bytes) : Nat → Nat → List (Nat × Bytes)
  | 0, _ => []
  | fuel + 1, i =>
    if i + 4 ≤ raw.length then
      let alen := fromBytesLE (slice raw i (i + 2))
      let atype := fromBytesLE (slice raw (i + 2) (i + 4))
      if alen < 4 ∨ i + alen > raw.length then []
      else (atype, slice raw (i + 4) (i + alen)) :: parseTlvsFrom raw fuel (i + align4 alen)
    else []

/-- **`_parse_tlvs`**: the loop from offset `0`, with as many iterations as bytes. -/
def parseTlvs (raw : Bytes) : List (Nat × Bytes) := parseTlvsFrom raw raw.length 0

/-! ## One iteration -/

/-- One iteration of the loop, on the bytes from the offset on: the type and value of the
attribute there and the aligned length the offset moves by, or `none` where the loop breaks. -/
def headAttr : Bytes → Option ((Nat × Bytes) × Nat)
  | x0 :: x1 :: x2 :: x3 :: rest =>
    if 4 ≤ fromBytesLE [x0, x1] ∧ fromBytesLE [x0, x1] ≤ 4 + rest.length then
      some ((fromBytesLE [x2, x3], rest.take (fromBytesLE [x0, x1] - 4)),
        align4 (fromBytesLE [x0, x1]))
    else none
  | _ => none

theorem headAttr_short {b : Bytes} (h : b.length < 4) : headAttr b = none := by
  match b, h with
  | [], _ | [_], _ | [_, _], _ | [_, _, _], _ => rfl

theorem four_le_of_headAttr {b : Bytes} {a : Nat × Bytes} {k : Nat}
    (h : headAttr b = some (a, k)) : 4 ≤ k ∧ k ≤ b.length + 3 := by
  match b, h with
  | x0 :: x1 :: x2 :: x3 :: rest, h =>
    simp only [headAttr] at h
    split_ifs at h with hc
    cases h
    have := le_align4 (fromBytesLE [x0, x1])
    simp only [align4, List.length_cons] at this ⊢
    omega

theorem parseTlvsFrom_succ (raw : Bytes) (n i : Nat) :
    parseTlvsFrom raw (n + 1) i =
      match headAttr (raw.drop i) with
      | none => []
      | some (a, k) => a :: parseTlvsFrom raw n (i + k) := by
  have hdrop : ∀ j, raw.drop (i + j) = (raw.drop i).drop j := fun j => (List.drop_drop j i raw).symm
  match h : raw.drop i with
  | x0 :: x1 :: x2 :: x3 :: rest =>
    have hl : raw.length = i + 4 + rest.length := by
      have := congrArg List.length h
      simp only [List.length_drop, List.length_cons] at this
      omega
    have h2 : slice raw i (i + 2) = [x0, x1] := by simp [ByteString.slice, h]
    have h4 : slice raw (i + 2) (i + 4) = [x2, x3] := by simp [ByteString.slice, hdrop, h]
    have hv : slice raw (i + 4) (i + fromBytesLE [x0, x1]) = rest.take (fromBytesLE [x0, x1] - 4) := by
      simp only [ByteString.slice, hdrop, h, List.drop_succ_cons, List.drop_zero]
      congr 1; omega
    simp only [parseTlvsFrom, h2, h4, hv, headAttr]
    rw [if_pos (by omega)]
    by_cases hc : 4 ≤ fromBytesLE [x0, x1] ∧ fromBytesLE [x0, x1] ≤ 4 + rest.length
    · rw [if_neg (by omega), if_pos hc]
    · rw [if_pos (by omega), if_neg hc]
  | [] | [_] | [_, _] | [_, _, _] =>
    have := congrArg List.length h
    simp only [List.length_drop, List.length_cons, List.length_nil] at this
    simp only [parseTlvsFrom, headAttr]
    rw [if_neg (by omega)]

theorem parseTlvsFrom_drop (raw : Bytes) (n i : Nat) :
    parseTlvsFrom raw n i = parseTlvsFrom (raw.drop i) n 0 := by
  induction n generalizing raw i with
  | zero => rfl
  | succ n ih =>
    rw [parseTlvsFrom_succ, parseTlvsFrom_succ, List.drop_zero]
    cases headAttr (raw.drop i) with
    | none => rfl
    | some r =>
      obtain ⟨a, k⟩ := r
      dsimp only
      rw [ih, ih (raw.drop i), List.drop_drop, Nat.zero_add]

theorem parseTlvsFrom_zero_succ (b : Bytes) (n : Nat) :
    parseTlvsFrom b (n + 1) 0 =
      match headAttr b with
      | none => []
      | some (a, k) => a :: parseTlvsFrom (b.drop k) n 0 := by
  rw [parseTlvsFrom_succ, List.drop_zero]
  cases headAttr b with
  | none => rfl
  | some r =>
    obtain ⟨a, k⟩ := r
    dsimp only
    rw [Nat.zero_add, parseTlvsFrom_drop]

theorem parseTlvsFrom_short {b : Bytes} (h : b.length < 4) (n : Nat) : parseTlvsFrom b n 0 = [] := by
  cases n with
  | zero => rfl
  | succ n => rw [parseTlvsFrom_zero_succ, headAttr_short h]

theorem parseTlvsFrom_fuel {b : Bytes} {n m : Nat} (hn : b.length < 4 * n + 4)
    (hm : b.length < 4 * m + 4) : parseTlvsFrom b n 0 = parseTlvsFrom b m 0 := by
  induction n generalizing b m with
  | zero => rw [parseTlvsFrom_short (by omega), parseTlvsFrom_short (by omega)]
  | succ n ih =>
    cases m with
    | zero => rw [parseTlvsFrom_short (by omega), parseTlvsFrom_short (by omega)]
    | succ m =>
      rw [parseTlvsFrom_zero_succ, parseTlvsFrom_zero_succ]
      cases hh : headAttr b with
      | none => rfl
      | some r =>
        have := four_le_of_headAttr hh
        exact congrArg (r.1 :: ·) (ih (by rw [List.length_drop]; omega) (by rw [List.length_drop]; omega))

/-- **The loop, one iteration at a time**: `_parse_tlvs` is the attribute `headAttr` reads followed
by `_parse_tlvs` of what it leaves, or nothing where `headAttr` breaks. -/
theorem parseTlvs_eq (b : Bytes) :
    parseTlvs b =
      match headAttr b with
      | none => []
      | some (a, k) => a :: parseTlvs (b.drop k) := by
  rw [parseTlvs, parseTlvsFrom_fuel (m := b.length + 1) (by omega) (by omega),
    parseTlvsFrom_zero_succ]
  cases headAttr b with
  | none => rfl
  | some r =>
    have := (List.drop_suffix r.2 b).length_le
    exact congrArg (r.1 :: ·) (parseTlvsFrom_fuel (by omega) (by omega))

example : parseTlvs [8, 0, 1, 0, 0xAA, 0xBB, 0xCC, 0xDD, 9, 0, 2, 0, 0xEE] =
    [(1, [0xAA, 0xBB, 0xCC, 0xDD])] := by decide

/-! ## The grammar -/

/-- The header and value of one attribute: the `u16` length `4 + |v|`, the `u16` type, `v`. -/
def attrBytes (t : Nat) (v : Bytes) : Bytes := toBytesLE 2 (4 + v.length) ++ toBytesLE 2 t ++ v

/-- **The attribute grammar.**  `Encodes attrs raw`: `raw` is the attributes `attrs`, each with a
type and a length below `2 ^ 16`, each padded with bytes of any value to a multiple of four,
except that the last may go unpadded. -/
inductive Encodes : List (Nat × Bytes) → Bytes → Prop
  | nil : Encodes [] []
  | padded (t : Nat) (v pad : Bytes) {attrs : List (Nat × Bytes)} {rest : Bytes}
      (ht : t < 2 ^ 16) (hv : 4 + v.length < 2 ^ 16)
      (hpad : pad.length = align4 (4 + v.length) - (4 + v.length)) :
      Encodes attrs rest → Encodes ((t, v) :: attrs) (attrBytes t v ++ pad ++ rest)
  | bare (t : Nat) (v : Bytes) (ht : t < 2 ^ 16) (hv : 4 + v.length < 2 ^ 16) :
      Encodes [(t, v)] (attrBytes t v)

@[simp] theorem length_attrBytes (t : Nat) (v : Bytes) : (attrBytes t v).length = 4 + v.length := by
  simp only [attrBytes, List.length_append, length_toBytesLE]

theorem length_attrBytes_pad {t : Nat} {v pad : Bytes}
    (hpad : pad.length = align4 (4 + v.length) - (4 + v.length)) :
    (attrBytes t v ++ pad).length = align4 (4 + v.length) := by
  have := le_align4 (4 + v.length)
  rw [List.length_append, length_attrBytes, hpad]; omega

theorem headAttr_attrBytes {t : Nat} {v : Bytes} (ht : t < 2 ^ 16) (hv : 4 + v.length < 2 ^ 16)
    (rest : Bytes) : headAttr (attrBytes t v ++ rest) = some ((t, v), align4 (4 + v.length)) := by
  obtain ⟨x0, x1, hL⟩ : ∃ x0 x1, toBytesLE 2 (4 + v.length) = [x0, x1] := ⟨_, _, rfl⟩
  obtain ⟨x2, x3, hT⟩ : ∃ x2 x3, toBytesLE 2 t = [x2, x3] := ⟨_, _, rfl⟩
  have hL' : fromBytesLE [x0, x1] = 4 + v.length := by
    rw [← hL]; exact fromBytesLE_toBytesLE_of_lt (lt_of_lt_of_eq hv rfl)
  have hT' : fromBytesLE [x2, x3] = t := by
    rw [← hT]; exact fromBytesLE_toBytesLE_of_lt (lt_of_lt_of_eq ht rfl)
  simp only [attrBytes, hL, hT, List.cons_append, List.nil_append, List.append_assoc, headAttr, hL',
    hT', List.length_append, Nat.add_sub_cancel_left, List.take_left]
  rw [if_pos (by omega)]

theorem fromBytesLE_two_lt (x y : UInt8) : fromBytesLE [x, y] < 2 ^ 16 := by
  have := x.toNat_lt_size
  have := y.toNat_lt_size
  simp only [fromBytesLE, UInt8.size] at *
  omega

theorem headAttr_eq_some {b : Bytes} {t k : Nat} {v : Bytes} (h : headAttr b = some ((t, v), k)) :
    t < 2 ^ 16 ∧ 4 + v.length < 2 ^ 16 ∧ k = align4 (4 + v.length) ∧
      b = attrBytes t v ++ b.drop (4 + v.length) := by
  match b, h with
  | x0 :: x1 :: x2 :: x3 :: rest, h =>
    simp only [headAttr] at h
    split_ifs at h with hc
    simp only [Option.some.injEq, Prod.mk.injEq] at h
    obtain ⟨⟨rfl, rfl⟩, rfl⟩ := h
    have hlen : 4 + (rest.take (fromBytesLE [x0, x1] - 4)).length = fromBytesLE [x0, x1] := by
      rw [List.length_take]; omega
    have e01 : toBytesLE 2 (fromBytesLE [x0, x1]) = [x0, x1] := toBytesLE_fromBytesLE [x0, x1]
    have e23 : toBytesLE 2 (fromBytesLE [x2, x3]) = [x2, x3] := toBytesLE_fromBytesLE [x2, x3]
    obtain ⟨m, hm⟩ : ∃ m, fromBytesLE [x0, x1] = m + 4 := ⟨_, (Nat.sub_add_cancel hc.1).symm⟩
    refine ⟨fromBytesLE_two_lt x2 x3, by rw [hlen]; exact fromBytesLE_two_lt x0 x1, by rw [hlen], ?_⟩
    rw [hlen, attrBytes, hlen, e01, e23, hm]
    simp only [Nat.add_sub_cancel, List.drop_succ_cons, List.drop_zero, List.cons_append,
      List.nil_append, List.take_append_drop]

/-! ## Reading back the grammar -/

/-- **The parser reads back what the grammar writes.** -/
theorem parseTlvs_of_encodes {attrs : List (Nat × Bytes)} {raw : Bytes} (h : Encodes attrs raw) :
    parseTlvs raw = attrs := by
  induction h with
  | nil => rfl
  | padded t v pad ht hv hpad _ ih =>
    rw [parseTlvs_eq, List.append_assoc, headAttr_attrBytes ht hv]
    dsimp only
    rw [← length_attrBytes_pad hpad, ← List.append_assoc, List.drop_left, ih]
  | bare t v ht hv =>
    have hk := le_align4 (4 + v.length)
    rw [parseTlvs_eq, ← List.append_nil (attrBytes t v), headAttr_attrBytes ht hv, List.append_nil]
    dsimp only
    rw [List.drop_eq_nil_of_le (by rw [length_attrBytes]; exact hk)]
    rfl

/-! ## The longest prefix -/

theorem encodes_prefix_of_headAttr_none {raw q : Bytes} {attrs : List (Nat × Bytes)}
    (hh : headAttr raw = none) (hq : q <+: raw) (he : Encodes attrs q) : q = [] := by
  obtain ⟨s, rfl⟩ := hq
  cases he with
  | nil => rfl
  | padded t v pad ht hv =>
    rw [List.append_assoc, List.append_assoc, headAttr_attrBytes ht hv] at hh; cases hh
  | bare t v ht hv => rw [headAttr_attrBytes ht hv] at hh; cases hh

theorem encodes_prefix_of_headAttr_some {raw q : Bytes} {attrs : List (Nat × Bytes)} {t k : Nat}
    {v : Bytes} (hh : headAttr raw = some ((t, v), k)) (hq : q <+: raw) (he : Encodes attrs q) :
    q = [] ∨ q.length = 4 + v.length ∨
      ∃ rest attrs', rest <+: raw.drop k ∧ Encodes attrs' rest ∧ q.length = k + rest.length := by
  obtain ⟨s, rfl⟩ := hq
  cases he with
  | nil => exact .inl rfl
  | padded t' v' pad ht hv hpad he' =>
    rw [List.append_assoc, List.append_assoc, headAttr_attrBytes ht hv] at hh
    simp only [Option.some.injEq, Prod.mk.injEq] at hh
    obtain ⟨⟨rfl, rfl⟩, rfl⟩ := hh
    have hk := length_attrBytes_pad (t := t') hpad
    refine .inr (.inr ⟨_, _, ⟨s, ?_⟩, he', by rw [List.length_append, hk]⟩)
    rw [List.append_assoc (attrBytes t' v' ++ pad), List.drop_left' hk]
  | bare t' v' ht hv =>
    rw [headAttr_attrBytes ht hv] at hh
    simp only [Option.some.injEq, Prod.mk.injEq] at hh
    obtain ⟨⟨rfl, rfl⟩, rfl⟩ := hh
    exact .inr (.inl (length_attrBytes t' v'))

/-- **The attributes of the longest prefix.**  On any byte string `_parse_tlvs` returns the
attributes of a prefix the grammar accepts, and the grammar accepts no longer prefix. -/
theorem parseTlvs_longest (raw : Bytes) :
    ∃ p, p <+: raw ∧ Encodes (parseTlvs raw) p ∧
      ∀ q attrs, q <+: raw → Encodes attrs q → q.length ≤ p.length := by
  induction' hn : raw.length using Nat.strong_induction_on with n ih generalizing raw
  rw [parseTlvs_eq]
  cases hh : headAttr raw with
  | none =>
    exact ⟨[], List.nil_prefix, .nil,
      fun q _ hq he => by rw [encodes_prefix_of_headAttr_none hh hq he]⟩
  | some r =>
    obtain ⟨⟨t, v⟩, k⟩ := r
    obtain ⟨ht, hv, rfl, hraw⟩ := headAttr_eq_some hh
    have hlen : 4 + v.length ≤ raw.length := by
      rw [hraw, List.length_append, length_attrBytes]; omega
    have hL := le_align4 (4 + v.length)
    obtain ⟨p', hp', he', hmax⟩ :=
      ih _ (by rw [← hn, List.length_drop]; omega) (raw.drop (align4 (4 + v.length))) rfl
    dsimp only
    by_cases hk : align4 (4 + v.length) ≤ raw.length
    · have htake : raw.take (align4 (4 + v.length)) =
          attrBytes t v ++ (raw.drop (4 + v.length)).take (align4 (4 + v.length) - (4 + v.length)) := by
        conv_lhs => rw [hraw]
        rw [List.take_append_eq_append_take, List.take_of_length_le (by rw [length_attrBytes]; exact hL),
          length_attrBytes]
      refine ⟨raw.take (align4 (4 + v.length)) ++ p', ?_, ?_, fun q attrs hq he => ?_⟩
      · have := (List.prefix_append_right_inj (raw.take (align4 (4 + v.length)))).2 hp'
        rwa [List.take_append_drop] at this
      · rw [htake]
        exact .padded t v _ ht hv (by rw [List.length_take, List.length_drop]; omega) he'
      · rw [List.length_append, List.length_take, min_eq_left hk]
        rcases encodes_prefix_of_headAttr_some hh hq he with rfl | hq' | ⟨rest, _, hrest, he'', hq'⟩
        · exact Nat.zero_le _
        · omega
        · have := hmax rest _ hrest he''; omega
    · have hnil : raw.drop (align4 (4 + v.length)) = [] := List.drop_eq_nil_of_le (by omega)
      refine ⟨attrBytes t v, ⟨_, hraw.symm⟩, ?_, fun q attrs hq he => ?_⟩
      · rw [hnil]; exact .bare t v ht hv
      · rw [length_attrBytes]
        rcases encodes_prefix_of_headAttr_some hh hq he with rfl | hq' | ⟨rest, _, -, -, hq'⟩
        · exact Nat.zero_le _
        · exact hq'.le
        · have := hq.length_le; omega

/-- **`_parse_tlvs` accepts exactly its grammar.**  It reads back every list of attributes the
grammar writes; with more fuel than bytes the loop has already ended at its own `break`; and on
any byte string it returns the attributes of the longest prefix the grammar accepts. -/
theorem parseTlvs_accepts_grammar :
    (∀ (attrs : List (Nat × Bytes)) (raw : Bytes), Encodes attrs raw → parseTlvs raw = attrs) ∧
    (∀ (raw : Bytes) (fuel : Nat), raw.length ≤ fuel → parseTlvsFrom raw fuel 0 = parseTlvs raw) ∧
    (∀ raw : Bytes, ∃ p, p <+: raw ∧ Encodes (parseTlvs raw) p ∧
      ∀ q attrs, q <+: raw → Encodes attrs q → q.length ≤ p.length) :=
  ⟨fun _ _ => parseTlvs_of_encodes, fun _ _ h => parseTlvsFrom_fuel (by omega) (by omega),
    parseTlvs_longest⟩

/-- An attribute of five value bytes padded to twelve, then an unpadded one of four. -/
def twoAttrs : Bytes :=
  attrBytes 1 [0x20, 0xA1, 0x07, 0x00, 0x01] ++ [0, 0, 0] ++ attrBytes 9 [0x80, 0x84, 0x1E, 0x00]

theorem parseTlvs_accepts_grammar_two :
    Encodes [(1, [0x20, 0xA1, 0x07, 0x00, 0x01]), (9, [0x80, 0x84, 0x1E, 0x00])] twoAttrs ∧
      parseTlvs twoAttrs = [(1, [0x20, 0xA1, 0x07, 0x00, 0x01]), (9, [0x80, 0x84, 0x1E, 0x00])] ∧
      twoAttrs.length ≤ 24 ∧ parseTlvsFrom twoAttrs 24 0 = parseTlvs twoAttrs :=
  have h : Encodes [(1, [0x20, 0xA1, 0x07, 0x00, 0x01]), (9, [0x80, 0x84, 0x1E, 0x00])] twoAttrs :=
    .padded _ _ [0, 0, 0] (by decide) (by decide) (by decide) (.bare _ _ (by decide) (by decide))
  have hl : twoAttrs.length ≤ 24 := by decide
  ⟨h, parseTlvs_accepts_grammar.1 _ _ h, hl, parseTlvs_accepts_grammar.2.1 _ _ hl⟩

end WireTap.Netlink.Attrs
