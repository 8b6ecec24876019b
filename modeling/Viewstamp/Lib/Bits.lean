import Mathlib.Data.Finset.Card
import Mathlib.Data.Finset.Range
import Mathlib.Data.Nat.Bitwise

/- Machine words read as finite sets of bit positions.

   `positions x` is the set of the bits set in `x`. The idioms of a loop over the set
   bits of a word are set operations on it: clearing the lowest set bit erases the
   number of trailing zeros, and setting bit `k` inserts `k`. -/
namespace Bits

variable {w : Nat}
variable {x : BitVec w}

/-- Clearing the lowest set bit with `x & (x - 1)`. -/
theorem testBit_and_pred {x k : Nat} (hlow : ∀ i < k, x.testBit i = false)
    (hk : x.testBit k = true) (i : Nat) :
    (x &&& (x - 1)).testBit i = (x.testBit i && decide (i ≠ k)) := by
  -- x is an odd multiple of 2 ^ k, so x and x - 1 agree above bit k
  have hmod : x % 2 ^ k = 0 := by
    refine Nat.eq_of_testBit_eq fun i => ?_
    rw [Nat.testBit_mod_two_pow, Nat.zero_testBit]
    by_cases hi : i < k
    · simp [hlow i hi]
    · simp [hi]
  obtain ⟨y, hy⟩ := Nat.dvd_of_mod_eq_zero hmod
  have hodd : y % 2 = 1 := by
    have : (2 ^ k * y).testBit k = true := hy ▸ hk
    rw [Nat.testBit_two_pow_mul] at this
    simpa [Nat.testBit_zero] using this
  obtain ⟨q, hq⟩ : ∃ q, y = 2 * q + 1 := ⟨y / 2, by omega⟩
  have hpow : 2 ^ k < 2 ^ (k + 1) := Nat.pow_lt_pow_right (by decide) (Nat.lt_succ_self k)
  have hpos : 0 < 2 ^ k := Nat.two_pow_pos k
  have hx : x = 2 ^ (k + 1) * q + 2 ^ k := by
    rw [hy, hq, Nat.pow_succ, Nat.mul_add, Nat.mul_one, Nat.mul_assoc]
  have hpred : x - 1 = 2 ^ (k + 1) * q + (2 ^ k - 1) := by omega
  rw [Nat.testBit_and]
  rcases Nat.lt_trichotomy i k with hi | rfl | hi
  · rw [hlow i hi]
    rfl
  · rw [hpred, Nat.testBit_two_pow_mul_add _ (by omega), if_pos (Nat.lt_succ_self i),
      Nat.testBit_two_pow_sub_one]
    simp
  · have hbeyond : ¬ i < k + 1 := by omega
    have hagree : (x - 1).testBit i = x.testBit i := by
      rw [hpred, Nat.testBit_two_pow_mul_add _ (by omega), if_neg hbeyond, hx,
        Nat.testBit_two_pow_mul_add _ hpow, if_neg hbeyond]
    rw [hagree]
    simp [Nat.ne_of_gt hi]

/-- The positions of the bits set in a word. -/
def positions (x : BitVec w) : Finset Nat := (Finset.range w).filter fun i => x.getLsbD i = true

@[simp] theorem mem_positions {i : Nat} : i ∈ positions x ↔ x.getLsbD i = true := by
  rw [positions, Finset.mem_filter, Finset.mem_range]
  exact ⟨And.right, fun h => ⟨BitVec.lt_of_getLsbD h, h⟩⟩

@[simp] theorem positions_zero : positions (0#w) = ∅ := by
  ext i
  simp

theorem positions_or (x y : BitVec w) : positions (x ||| y) = positions x ∪ positions y := by
  ext i
  simp

theorem positions_one_shiftLeft {k : Nat} (hk : k < w) : positions (1#w <<< k) = {k} := by
  ext i
  rw [mem_positions, Finset.mem_singleton, BitVec.getLsbD_shiftLeft, BitVec.getLsbD_one]
  constructor
  · intro h
    simp at h
    omega
  · rintro rfl
    simp [hk]
    omega

theorem ctz_mem_positions (h : x ≠ 0#w) : x.ctz.toNat ∈ positions x :=
  mem_positions.mpr (BitVec.getLsbD_true_ctz_of_ne_zero h)

/-- Clearing the lowest set bit erases it from the set. -/
theorem positions_clear_lowest (h : x ≠ 0#w) :
    positions (x &&& (x - 1#w)) = (positions x).erase x.ctz.toNat := by
  have hpos : 0 < x.toNat :=
    Nat.pos_of_ne_zero fun hz => h (BitVec.eq_of_toNat_eq (by simpa using hz))
  have hw : 0 < w := Nat.pos_of_ne_zero (by rintro rfl; exact h (Subsingleton.elim _ _))
  have hone : (1#w).toNat = 1 := by
    rw [BitVec.toNat_ofNat, Nat.mod_eq_of_lt (Nat.one_lt_two_pow hw.ne')]
  have hpred : (x - 1#w).toNat = x.toNat - 1 := by
    rw [BitVec.toNat_sub_of_le (by rw [BitVec.le_def, hone]; exact hpos), hone]
  ext i
  rw [mem_positions, Finset.mem_erase, mem_positions, ← BitVec.testBit_toNat, BitVec.toNat_and,
    hpred, testBit_and_pred (fun j hj => BitVec.getLsbD_false_of_lt_ctz hj)
      (BitVec.getLsbD_true_ctz_of_ne_zero h), BitVec.testBit_toNat, Bool.and_eq_true,
    decide_eq_true_eq, and_comm]

/-- The pop count is the number of positions. -/
theorem card_positions (x : BitVec w) : (positions x).card = x.cpop.toNat := by
  have hcount (k : Nat) : ((Finset.range k).filter fun i => x.getLsbD i = true).card
      = x.cpopNatRec k 0 := by
    induction k with
    | zero => rfl
    | succ k ih =>
      rw [Finset.range_add_one, Finset.filter_insert, BitVec.cpopNatRec_succ,
        BitVec.cpopNatRec_add, ← ih]
      cases hk : x.getLsbD k with
      | false => simp
      | true =>
        rw [if_pos rfl, Finset.card_insert_of_notMem (by simp)]
        simp
  rw [BitVec.toNat_cpop, ← hcount]
  rfl

end Bits
