import Mathlib.Data.List.Basic

/-! # Data length codes

A CAN frame's 4-bit DLC is its payload length for DLC `0..8`; CAN FD maps DLC `9..15` to
`12, 16, 20, 24, 32, 48, 64` (`CAN_FD_DLC_LEN`).  `dlc_to_len` reads the table and
`len_to_dlc` scans it for the first DLC whose length covers the payload.

* `dlcToLen_lenToDlc`: on a valid FD length, length → DLC → length is the identity;
* `lenToDlc_dlcToLen`: on a 4-bit code, DLC → length → DLC is the identity;
* `lenToDlc_le`, `dlcToLen_le`: codes stay below 16, lengths below 65. -/

namespace WireTap.Can.Dlc

/-- `CAN_FD_DLC_LEN`. -/
def canFdDlcLen : List Nat := [0, 1, 2, 3, 4, 5, 6, 7, 8, 12, 16, 20, 24, 32, 48, 64]

/-- `dlc_to_len(dlc, is_fd)`. -/
def dlcToLen (dlc : Nat) (isFd : Bool) : Nat :=
  if dlc ≤ 8 then dlc
  else if isFd ∧ dlc ≤ 15 then canFdDlcLen.getD dlc 8
  else 8

/-- `len_to_dlc(length)`: the `for dlc, dlen in enumerate(CAN_FD_DLC_LEN)` scan. -/
def lenToDlc (length : Nat) : Nat :=
  if length ≤ 8 then length
  else (canFdDlcLen.findIdx? fun dlen => decide (dlen ≥ length)).getD 15

/-- The payload lengths a CAN FD frame can have. -/
def ValidFdLen (n : Nat) : Prop := n ≤ 8 ∨ n ∈ [12, 16, 20, 24, 32, 48, 64]

instance (n : Nat) : Decidable (ValidFdLen n) := inferInstanceAs (Decidable (_ ∨ _))

@[simp] theorem dlcToLen_of_le {d : Nat} (h : d ≤ 8) (isFd : Bool) : dlcToLen d isFd = d := by
  simp [dlcToLen, h]

@[simp] theorem lenToDlc_of_le {n : Nat} (h : n ≤ 8) : lenToDlc n = n := by
  simp [lenToDlc, h]

theorem dlcToLen_le (d : Nat) (isFd : Bool) : dlcToLen d isFd ≤ 64 := by
  unfold dlcToLen
  split
  · omega
  split
  · rename_i h
    have key : ∀ k < 16, canFdDlcLen.getD k 8 ≤ 64 := by decide
    exact key d (by omega)
  · omega

theorem dlcToLen_false_le (d : Nat) : dlcToLen d false ≤ 8 := by
  unfold dlcToLen
  split
  · omega
  · simp

theorem lenToDlc_of_gt {n : Nat} (h : 64 < n) : lenToDlc n = 15 := by
  have hnone : canFdDlcLen.findIdx? (fun dlen => decide (dlen ≥ n)) = none := by
    rw [List.findIdx?_eq_none_iff]
    intro x hx
    have : x ≤ 64 := by simp [canFdDlcLen] at hx; omega
    simp; omega
  simp [lenToDlc, show ¬ n ≤ 8 by omega, hnone]

theorem lenToDlc_le (n : Nat) : lenToDlc n ≤ 15 := by
  by_cases h : n ≤ 64
  · have key : ∀ k < 65, lenToDlc k ≤ 15 := by decide
    exact key n (by omega)
  · rw [lenToDlc_of_gt (by omega)]

/-- Length → DLC → length is the identity on valid FD lengths. -/
theorem dlcToLen_lenToDlc {n : Nat} (h : ValidFdLen n) : dlcToLen (lenToDlc n) true = n := by
  rcases h with h | h
  · simp [h]
  · have key : ∀ k ∈ [12, 16, 20, 24, 32, 48, 64], dlcToLen (lenToDlc k) true = k := by decide
    exact key n h

/-- DLC → length → DLC is the identity on 4-bit codes. -/
theorem lenToDlc_dlcToLen {d : Nat} (h : d ≤ 15) : lenToDlc (dlcToLen d true) = d := by
  have key : ∀ k < 16, lenToDlc (dlcToLen k true) = k := by decide
  exact key d (by omega)

theorem le_dlcToLen_lenToDlc {n : Nat} (h : n ≤ 64) : n ≤ dlcToLen (lenToDlc n) true := by
  have key : ∀ k < 65, k ≤ dlcToLen (lenToDlc k) true := by decide
  exact key n (by omega)

end WireTap.Can.Dlc
