import Mathlib.Data.Nat.Bitwise

/-! # CAN identifiers

SocketCAN puts the frame-format flags in the top three bits of the 32-bit `can_id`: bit 31 is
`CAN_EFF_FLAG` (29-bit extended identifier), bit 30 `CAN_RTR_FLAG`, bit 29 `CAN_ERR_FLAG`.  Every
place of the server that looks at an identifier (`PostgresWriter.enqueue`,
`GVRETClient.send_frame`, `GVRETClient._try_consume_send_frame`, `format_candump_line`) computes
the same two things from it:

    extended = bool(can_id & CAN_EFF_FLAG)
    arb_id   = can_id & (CAN_EFF_MASK if extended else CAN_SFF_MASK)

so they are defined once here, as `extendedOf` and `arbIdOf`.  The lemmas turn the masks into
arithmetic (`extendedOf_iff`, `arbIdOf_eq`), so that the codecs' proofs end in `omega`. -/

namespace WireTap.Can.Id

/-- `CAN_EFF_FLAG`. -/
def canEffFlag : Nat := 0x80000000
/-- `CAN_RTR_FLAG`. -/
def canRtrFlag : Nat := 0x40000000
/-- `CAN_ERR_FLAG`. -/
def canErrFlag : Nat := 0x20000000
/-- `CAN_EFF_MASK`. -/
def canEffMask : Nat := 0x1FFFFFFF
/-- `CAN_SFF_MASK`. -/
def canSffMask : Nat := 0x000007FF

/-- `bool(can_id & CAN_EFF_FLAG)`. -/
def extendedOf (canId : Nat) : Bool := canId &&& canEffFlag != 0

/-- `can_id & (CAN_EFF_MASK if extended else CAN_SFF_MASK)`. -/
def arbIdOf (canId : Nat) : Nat :=
  canId &&& (if extendedOf canId then canEffMask else canSffMask)

/-! ## Masks as arithmetic -/

theorem land_two_pow (x n : Nat) : x &&& 2 ^ n = if x.testBit n then 2 ^ n else 0 := by
  apply Nat.eq_of_testBit_eq
  intro i
  by_cases hi : n = i
  · subst hi; split <;> simp_all [Nat.testBit_two_pow_self]
  · split <;> simp [Nat.testBit_two_pow_of_ne hi]

theorem lor_two_pow_of_lt {a n : Nat} (h : a < 2 ^ n) : a ||| 2 ^ n = a + 2 ^ n := by
  apply Nat.eq_of_testBit_eq
  intro i
  rw [Nat.testBit_or, Nat.add_comm, Nat.testBit_two_pow]
  rcases Nat.lt_trichotomy i n with hi | rfl | hi
  · rw [Nat.testBit_two_pow_add_gt hi]; simp [Nat.ne_of_gt hi]
  · rw [Nat.testBit_two_pow_add_eq, Nat.testBit_lt_two_pow h]; simp
  · have h1 : 2 ^ n + a < 2 ^ i := by
      have : 2 ^ (n + 1) ≤ 2 ^ i := Nat.pow_le_pow_right (by omega) hi
      rw [Nat.pow_succ] at this; omega
    rw [Nat.testBit_lt_two_pow h1,
      Nat.testBit_lt_two_pow (lt_trans h (Nat.pow_lt_pow_right (by omega) hi))]
    simp [Nat.ne_of_lt hi]

theorem extendedOf_eq_testBit (x : Nat) : extendedOf x = x.testBit 31 := by
  have h := land_two_pow x 31
  simp only [extendedOf, canEffFlag]
  rw [show (0x80000000 : Nat) = 2 ^ 31 from rfl, h]
  split <;> simp_all

theorem extendedOf_iff {x : Nat} (h : x < 2 ^ 32) : extendedOf x = true ↔ 2 ^ 31 ≤ x := by
  rw [extendedOf_eq_testBit, Nat.testBit_to_div_mod, decide_eq_true_iff]
  omega

theorem arbIdOf_eq (x : Nat) :
    arbIdOf x = if extendedOf x then x % 2 ^ 29 else x % 2 ^ 11 := by
  unfold arbIdOf
  split
  · exact Nat.and_pow_two_sub_one_eq_mod x 29
  · exact Nat.and_pow_two_sub_one_eq_mod x 11

theorem arbIdOf_lt (x : Nat) : arbIdOf x < 2 ^ 29 := by
  rw [arbIdOf_eq]; split <;> omega

/-- `arb | (CAN_EFF_FLAG if extended else 0)`: the arbitration id with the extended flag put
back in bit 31, as `send_frame` and `_try_consume_send_frame` build it. -/
def withEff (arb : Nat) (ext : Bool) : Nat := arb ||| (if ext then canEffFlag else 0)

theorem withEff_eq {arb : Nat} (h : arb < 2 ^ 31) (ext : Bool) :
    withEff arb ext = arb + (if ext then 2 ^ 31 else 0) := by
  cases ext
  · simp [withEff]
  · exact lor_two_pow_of_lt h

end WireTap.Can.Id
