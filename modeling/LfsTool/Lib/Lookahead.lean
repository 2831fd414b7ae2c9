import Mathlib.Algebra.Order.Ring.Nat
import Mathlib.Data.Nat.Bitwise

/-!
# Lookahead

What a scan around a ring of `n` places needs, with a mark for each of the places ahead.

* `ahead n cur b`: how many places after `cur` the place `b` is. `ahead_sub`: nearer by `k` steps.
* `test`, `set`: bits in a list of words. `test_set`: setting one bit sets that bit.
-/

namespace Lookahead

/-! ## Places -/

section Places

variable {n cur b : Nat}

def ahead (n cur b : Nat) : Nat := if cur ≤ b then b - cur else b + n - cur

theorem ahead_lt (hcur : cur < n) (hb : b < n) : ahead n cur b < n := by
  rw [ahead]
  split <;> omega

theorem ahead_self : ahead n cur cur = 0 := by
  rw [ahead, if_pos (Nat.le_refl cur), Nat.sub_self]

/-- The place of a distance, and the distance of a place. -/
theorem add_ahead (hcur : cur < n) (hb : b < n) : (cur + ahead n cur b) % n = b := by
  rw [ahead]
  split
  · rw [Nat.add_sub_cancel' ‹_›, Nat.mod_eq_of_lt hb]
  · rw [Nat.add_sub_cancel' (by omega), Nat.add_mod_right, Nat.mod_eq_of_lt hb]

theorem ahead_add {k : Nat} (hcur : cur < n) (hk : k < n) : ahead n cur ((cur + k) % n) = k := by
  by_cases h : cur + k < n
  · rw [Nat.mod_eq_of_lt h, ahead, if_pos (Nat.le_add_right _ _), Nat.add_sub_cancel_left]
  · rw [Nat.mod_eq_sub_mod (by omega), Nat.mod_eq_of_lt (by omega), ahead, if_neg (by omega)]
    omega

/-- After `k` steps a place that is not behind is nearer by `k`. -/
theorem ahead_sub {k : Nat} (hcur : cur < n) (hb : b < n) (hk : k ≤ ahead n cur b) :
    ahead n ((cur + k) % n) b = ahead n cur b - k := by
  have hlt := ahead_lt hcur hb
  conv => lhs; rw [← add_ahead hcur hb]
  rw [show cur + ahead n cur b = cur + k + (ahead n cur b - k) by omega,
    ← Nat.mod_add_mod (cur + k)]
  exact ahead_add (Nat.mod_lt _ (show 0 < n by omega)) (by omega)

/-- A step past the place itself leads around the ring. -/
theorem ahead_passed (hcur : cur < n) : ahead n ((cur + 1) % n) cur = n - 1 := by
  by_cases h : cur + 1 < n
  · rw [Nat.mod_eq_of_lt h, ahead, if_neg (by omega)]
    omega
  · obtain rfl : n = cur + 1 := by omega
    rw [Nat.mod_self, ahead, if_pos (Nat.zero_le _)]
    rfl

end Places

/-! ## Marks -/

section Marks

def test (words : List UInt32) (k : Nat) : Bool :=
  (words.getD (k / 32) 0 &&& (1 : UInt32) <<< (k % 32).toUInt32) != 0

def set (words : List UInt32) (k : Nat) : List UInt32 :=
  words.modify (k / 32) fun word => word ||| (1 : UInt32) <<< (k % 32).toUInt32

theorem set_length (words : List UInt32) (k : Nat) : (set words k).length = words.length :=
  List.length_modify _ _ _

theorem one_shiftLeft_toNat {k : Nat} (hk : k < 32) : ((1 : UInt32) <<< k.toUInt32).toNat = 2 ^ k := by
  have hk' : k.toUInt32.toNat = k := UInt32.toNat_ofNat_of_lt' (Nat.lt_trans hk (by decide))
  rw [UInt32.toNat_shiftLeft, hk', Nat.mod_eq_of_lt hk, UInt32.toNat_one, Nat.one_shiftLeft]
  exact Nat.mod_eq_of_lt (Nat.pow_lt_pow_right (by decide) hk)

theorem test_eq (words : List UInt32) (k : Nat) :
    test words k = (words.getD (k / 32) 0).toNat.testBit (k % 32) := by
  have hk : k % 32 < 32 := Nat.mod_lt _ (by decide)
  have hzero : (words.getD (k / 32) 0 &&& (1 : UInt32) <<< (k % 32).toUInt32) = 0 ↔
      (words.getD (k / 32) 0).toNat.testBit (k % 32) = false := by
    rw [← UInt32.toNat_inj, UInt32.toNat_and, one_shiftLeft_toNat hk, Nat.and_two_pow]
    have := Nat.two_pow_pos (k % 32)
    cases (words.getD (k / 32) 0).toNat.testBit (k % 32) <;> simp
  rw [test]
  cases h : (words.getD (k / 32) 0).toNat.testBit (k % 32) with
  | false => rw [hzero.mpr h]; rfl
  | true =>
    refine bne_iff_ne.mpr fun hz => ?_
    rw [hzero.mp hz] at h
    cases h

theorem test_set {words : List UInt32} {k : Nat} (hk : k < 32 * words.length) (j : Nat) :
    test (set words k) j = (test words j || decide (j = k)) := by
  have hword : k / 32 < words.length := by omega
  have hlt : k % 32 < 32 := Nat.mod_lt _ (by decide)
  rw [test_eq, test_eq, set, List.getD_eq_getElem?_getD, List.getD_eq_getElem?_getD,
    List.getElem?_modify]
  by_cases hj : k / 32 = j / 32
  · rw [← hj, List.getElem?_eq_getElem hword]
    simp only [if_true, Option.map_eq_map, Option.map_some, Option.getD_some, UInt32.toNat_or,
      Nat.testBit_or, one_shiftLeft_toNat hlt, Nat.testBit_two_pow]
    congr 1
    rw [decide_eq_decide]
    omega
  · rw [decide_eq_false (show j ≠ k from fun h => hj (by rw [h])), Bool.or_false]
    simp only [if_neg hj, id_map']

theorem test_replicate_zero (m k : Nat) : test (List.replicate m 0) k = false := by
  have hword : (List.replicate m (0 : UInt32)).getD (k / 32) 0 = 0 := by
    rw [List.getD_eq_getElem?_getD, List.getElem?_replicate]
    split <;> rfl
  rw [test_eq, hword]
  exact Nat.zero_testBit _

end Marks

end Lookahead
