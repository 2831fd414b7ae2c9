import Mathlib.NumberTheory.Padics.PadicVal.Basic

/-!
# BitCount

The ones of a number in binary and the zeros at its end.

* `popcount n`: the ones. `trailing n`: the zeros, for `n ≠ 0`.
* `popcount_succ`: what counting up by one does to them.
* `and_neg`: a number and its complement to `2 ^ w` have the lowest one in common.
* `log2_of_shift`: a logarithm found by shifting.
-/

namespace BitCount

/-! ## Ones -/

def popcount (n : Nat) : Nat := (Nat.digits 2 n).sum

@[simp] theorem popcount_zero : popcount 0 = 0 := rfl

@[simp] theorem popcount_one : popcount 1 = 1 := rfl

theorem popcount_bit {b : Nat} (hb : b < 2) (n : Nat) : popcount (b + 2 * n) = b + popcount n := by
  by_cases hz : b ≠ 0 ∨ n ≠ 0
  · rw [popcount, Nat.digits_add 2 (by decide) b n hb hz, List.sum_cons, popcount]
  · simp only [not_or, not_not] at hz
    rw [hz.1, hz.2]
    rfl

theorem popcount_eq (n : Nat) : popcount n = n % 2 + popcount (n / 2) := by
  calc popcount n = popcount (n % 2 + 2 * (n / 2)) := by rw [Nat.mod_add_div]
    _ = n % 2 + popcount (n / 2) := popcount_bit (Nat.mod_lt n (by decide)) (n / 2)

theorem popcount_add_mul {k r : Nat} (hr : r < 2 ^ k) (q : Nat) :
    popcount (r + 2 ^ k * q) = popcount r + popcount q := by
  induction k generalizing r with
  | zero =>
    rw [Nat.lt_one_iff.mp hr]
    simp
  | succ k ih =>
    have hhalf : (r + 2 ^ (k + 1) * q) / 2 = r / 2 + 2 ^ k * q := by
      rw [Nat.pow_succ, Nat.mul_comm (2 ^ k) 2, Nat.mul_assoc, Nat.add_mul_div_left _ _ (by decide)]
    have hmod : (r + 2 ^ (k + 1) * q) % 2 = r % 2 := by
      rw [Nat.pow_succ, Nat.mul_comm (2 ^ k) 2, Nat.mul_assoc, Nat.add_mul_mod_self_left]
    rw [popcount_eq, hhalf, hmod, ih (by rw [Nat.pow_succ] at hr; omega), popcount_eq r]
    omega

theorem popcount_le {k n : Nat} (h : n < 2 ^ k) : popcount n ≤ k := by
  induction k generalizing n with
  | zero =>
    rw [Nat.lt_one_iff.mp h]
    exact Nat.zero_le _
  | succ k ih =>
    have hhalf := ih (n := n / 2) (by rw [Nat.pow_succ] at h; omega)
    rw [popcount_eq]
    omega

theorem popcount_pos {n : Nat} (h : n ≠ 0) : 0 < popcount n := by
  induction n using Nat.strongRecOn with
  | ind n ih =>
    rw [popcount_eq]
    by_cases hodd : n % 2 = 0
    · have := ih (n / 2) (by omega) (by omega)
      omega
    · omega

/-! ## Zeros at the end -/

def trailing (n : Nat) : Nat := padicValNat 2 n

theorem trailing_odd (t q : Nat) : trailing (2 ^ t * (2 * q + 1)) = t := by
  have hodd : padicValNat 2 (2 * q + 1) = 0 :=
    padicValNat.eq_zero_of_not_dvd (by omega)
  rw [trailing, padicValNat.mul (by positivity) (by omega), padicValNat.prime_pow, hodd, Nat.add_zero]

theorem eq_odd {n : Nat} (h : n ≠ 0) : ∃ q, n = 2 ^ trailing n * (2 * q + 1) := by
  obtain ⟨t, m, ⟨q, rfl⟩, rfl⟩ := Nat.exists_eq_two_pow_mul_odd h
  exact ⟨q, by rw [trailing_odd]⟩

theorem one_le_trailing {n : Nat} (h : n ≠ 0) (heven : n % 2 = 0) : 1 ≤ trailing n := by
  obtain ⟨q, hq⟩ := eq_odd h
  refine Nat.one_le_iff_ne_zero.mpr fun hz => ?_
  rw [hz] at hq
  omega

theorem two_pow_trailing_le {n : Nat} (h : n ≠ 0) : 2 ^ trailing n ≤ n := by
  obtain ⟨q, hq⟩ := eq_odd h
  calc 2 ^ trailing n = 2 ^ trailing n * 1 := (Nat.mul_one _).symm
    _ ≤ 2 ^ trailing n * (2 * q + 1) := Nat.mul_le_mul_left _ (by omega)
    _ = n := hq.symm

/-- The carry: as many ones at the end go as there are zeros afterwards. -/
theorem popcount_succ (n : Nat) : popcount (n + 1) + trailing (n + 1) = popcount n + 1 := by
  have hn := sub_one_mul_padicValNat_factorial (p := 2) n
  have hn1 := sub_one_mul_padicValNat_factorial (p := 2) (n + 1)
  have hle : popcount n ≤ n := Nat.digit_sum_le 2 n
  have hle1 : popcount (n + 1) ≤ n + 1 := Nat.digit_sum_le 2 (n + 1)
  rw [Nat.factorial_succ, padicValNat.mul (by omega) (Nat.factorial_ne_zero n)] at hn1
  unfold popcount trailing at *
  omega

/-- Taking the lowest one away. -/
theorem popcount_sub_trailing {n : Nat} (h : n ≠ 0) :
    popcount (n - 2 ^ trailing n) + 1 = popcount n := by
  obtain ⟨q, hq⟩ := eq_odd h
  generalize trailing n = t at hq
  have hsub : n - 2 ^ t = 0 + 2 ^ t * (2 * q) := by
    rw [hq, Nat.mul_add, Nat.mul_one, Nat.add_sub_cancel, Nat.zero_add]
  have hn : n = 0 + 2 ^ t * (1 + 2 * q) := by rw [hq, Nat.zero_add, Nat.add_comm 1]
  have heven : popcount (2 * q) = popcount q := by
    simpa using popcount_bit (b := 0) (by decide) q
  rw [hsub, hn, popcount_add_mul (by positivity), popcount_add_mul (by positivity),
    popcount_bit (by decide), heven]
  omega

/-! ## Masks -/

theorem and_add_mul {k r r' : Nat} (hr : r < 2 ^ k) (hr' : r' < 2 ^ k) (q q' : Nat) :
    (r + 2 ^ k * q) &&& (r' + 2 ^ k * q') = (r &&& r') + 2 ^ k * (q &&& q') := by
  apply Nat.eq_of_testBit_eq
  intro i
  have hand : r &&& r' < 2 ^ k := Nat.lt_of_le_of_lt Nat.and_le_left hr
  rw [Nat.testBit_and, Nat.add_comm, Nat.add_comm r', Nat.add_comm (r &&& r'),
    Nat.testBit_two_pow_mul_add _ hr, Nat.testBit_two_pow_mul_add _ hr',
    Nat.testBit_two_pow_mul_add _ hand]
  split <;> rw [Nat.testBit_and]

theorem and_neg {w n : Nat} (h : n ≠ 0) (hw : n < 2 ^ w) : n &&& (2 ^ w - n) = 2 ^ trailing n := by
  obtain ⟨q, hq⟩ := eq_odd h
  generalize trailing n = t at hq
  have htw : t < w := by
    by_contra hle
    have hpow : 2 ^ w ≤ 2 ^ t := Nat.pow_le_pow_right (by decide) (by omega)
    have : 2 ^ t * 1 ≤ 2 ^ t * (2 * q + 1) := Nat.mul_le_mul_left _ (by omega)
    omega
  obtain ⟨v, rfl⟩ : ∃ v, w = t + (v + 1) := ⟨w - t - 1, by omega⟩
  have hlt : q < 2 ^ v := by
    have hmul : 2 ^ t * (2 * q + 1) < 2 ^ t * 2 ^ (v + 1) := by rw [← hq, ← Nat.pow_add]; exact hw
    have := Nat.lt_of_mul_lt_mul_left hmul
    rw [Nat.pow_succ] at this
    omega
  have hneg : 2 ^ (t + (v + 1)) - n = 0 + 2 ^ t * (1 + 2 ^ 1 * (2 ^ v - (q + 1))) := by
    have hpow : 2 ^ (v + 1) - (2 * q + 1) = 1 + 2 ^ 1 * (2 ^ v - (q + 1)) := by
      rw [Nat.pow_succ, Nat.pow_one]; omega
    rw [hq, Nat.pow_add, ← Nat.mul_sub, hpow, Nat.zero_add]
  have hn : n = 0 + 2 ^ t * (1 + 2 ^ 1 * q) := by rw [hq, Nat.zero_add, Nat.pow_one, Nat.add_comm 1]
  have hzero : q &&& (2 ^ v - (q + 1)) = 0 := by
    apply Nat.eq_of_testBit_eq
    intro i
    rw [Nat.testBit_and, Nat.testBit_two_pow_sub_succ hlt, Nat.zero_testBit]
    cases q.testBit i <;> simp
  rw [hneg]
  conv => lhs; lhs; rw [hn]
  rw [and_add_mul (by positivity) (by positivity), and_add_mul (by decide) (by decide), hzero]
  simp

/-! ## Bytes -/

/-- `m` in each of `k` bytes. -/
def mask (m : Nat) : Nat → Nat
  | 0 => 0
  | k + 1 => m + 256 * mask m k

/-- `f` of each of the lowest `k` bytes. -/
def bytewise (f : Nat → Nat) : Nat → Nat → Nat
  | 0, _ => 0
  | k + 1, n => f (n % 256) + 256 * bytewise f k (n / 256)

theorem bytewise_congr {f g : Nat → Nat} (h : ∀ b < 256, f b = g b) (k n : Nat) :
    bytewise f k n = bytewise g k n := by
  induction k generalizing n with
  | zero => rfl
  | succ k ih => rw [bytewise, bytewise, ih, h _ (Nat.mod_lt n (by decide))]

theorem bytewise_add (f g : Nat → Nat) (k n : Nat) :
    bytewise (fun b => f b + g b) k n = bytewise f k n + bytewise g k n := by
  induction k generalizing n with
  | zero => rfl
  | succ k ih =>
    simp only [bytewise, ih]
    omega

theorem bytewise_id {k n : Nat} (h : n < 256 ^ k) : bytewise id k n = n := by
  induction k generalizing n with
  | zero => exact (Nat.lt_one_iff.mp h).symm
  | succ k ih =>
    rw [bytewise, ih (Nat.div_lt_of_lt_mul (by rwa [Nat.pow_succ, Nat.mul_comm] at h)), id]
    omega

theorem bytewise_le {f : Nat → Nat} {m : Nat} (h : ∀ b < 256, f b ≤ m) (k n : Nat) :
    bytewise f k n ≤ mask m k := by
  induction k generalizing n with
  | zero => exact Nat.le_refl _
  | succ k ih =>
    have hb := h (n % 256) (Nat.mod_lt n (by decide))
    have hrest := ih (n / 256)
    rw [bytewise, mask]
    omega

/-- Each byte of the result is `f` of a byte, or 0. -/
theorem bytewise_byte {f : Nat → Nat} (h : ∀ b < 256, f b < 256) (k n j : Nat) :
    (∃ b < 256, bytewise f k n / 256 ^ j % 256 = f b) ∨ bytewise f k n / 256 ^ j % 256 = 0 := by
  induction k generalizing n j with
  | zero => exact .inr (by simp [bytewise])
  | succ k ih =>
    have hmod := Nat.mod_lt n (show 256 > 0 by decide)
    have hb := h (n % 256) hmod
    cases j with
    | zero =>
      rw [Nat.pow_zero, Nat.div_one, bytewise]
      exact .inl ⟨n % 256, hmod, by omega⟩
    | succ j =>
      have hdiv : bytewise f (k + 1) n / 256 ^ (j + 1) = bytewise f k (n / 256) / 256 ^ j := by
        rw [Nat.pow_succ, Nat.mul_comm, ← Nat.div_div_eq_div_mul, bytewise]
        congr 1
        omega
      rw [hdiv]
      exact ih (n / 256) j

theorem bytewise_comp {f g : Nat → Nat} (h : ∀ b < 256, g b < 256) (k n : Nat) :
    bytewise f k (bytewise g k n) = bytewise (fun b => f (g b)) k n := by
  induction k generalizing n with
  | zero => rfl
  | succ k ih =>
    have hb := h (n % 256) (Nat.mod_lt n (by decide))
    have hmod : (g (n % 256) + 256 * bytewise g k (n / 256)) % 256 = g (n % 256) := by omega
    have hdiv : (g (n % 256) + 256 * bytewise g k (n / 256)) / 256 = bytewise g k (n / 256) := by
      omega
    rw [bytewise, bytewise, hmod, hdiv, ih, bytewise]

theorem and_mask {m n : Nat} (hm : m < 256) (k : Nat) :
    n &&& mask m (k + 1) = ((n % 256) &&& m) + 256 * (n / 256 &&& mask m k) := by
  conv => lhs; rw [← Nat.mod_add_div n 256]
  exact and_add_mul (k := 8) (Nat.mod_lt n (by decide)) hm (n / 256) (mask m k)

/-- A mask with room above takes no bit from the next byte. -/
theorem shift_and_mask {m s : Nat} (hs : s ≤ 8) (hm : m < 2 ^ (8 - s)) (k n : Nat) :
    (n / 2 ^ s) &&& mask m k = bytewise (fun b => (b / 2 ^ s) &&& m) k n := by
  have hm8 : m < 256 := Nat.lt_of_lt_of_le hm (Nat.pow_le_pow_right (by decide) (Nat.sub_le 8 s))
  have hsplit : 256 = 2 ^ s * 2 ^ (8 - s) := by
    rw [← Nat.pow_add, show s + (8 - s) = 8 by omega]
  have hcut : ∀ x, x &&& m = (x % 2 ^ (8 - s)) &&& m := fun x => by
    have hand := Nat.and_mod_two_pow (a := x) (b := m) (n := 8 - s)
    rwa [Nat.mod_eq_of_lt hm, Nat.mod_eq_of_lt (Nat.lt_of_le_of_lt Nat.and_le_right hm)] at hand
  induction k generalizing n with
  | zero => simp [mask, bytewise]
  | succ k ih =>
    have hlow : n / 2 ^ s % 256 % 2 ^ (8 - s) = n % 256 / 2 ^ s := by
      have hdvd : 2 ^ (8 - s) ∣ 256 := ⟨2 ^ s, by rw [Nat.mul_comm]; exact hsplit⟩
      rw [Nat.mod_mod_of_dvd _ hdvd, hsplit, Nat.mod_mul_right_div_self]
    rw [and_mask hm8, Nat.div_div_eq_div_mul, Nat.mul_comm (2 ^ s), ← Nat.div_div_eq_div_mul, ih,
      bytewise, hcut (n / 2 ^ s % 256), hlow]

/-- Half bytes that are small do not run over when they are added. -/
theorem halves_and_mask {n : Nat} (k : Nat)
    (h : ∀ j, n / 256 ^ j % 16 ≤ 7 ∧ n / 256 ^ j % 256 / 16 ≤ 7) :
    (n + n / 16) &&& mask 15 k = bytewise (fun b => b % 16 + b / 16) k n := by
  induction k generalizing n with
  | zero => simp [mask, bytewise]
  | succ k ih =>
    have h₀ := h 0
    have h₁ := h 1
    rw [Nat.pow_zero, Nat.div_one] at h₀
    rw [Nat.pow_one] at h₁
    have hnext : ∀ j, n / 256 / 256 ^ j % 16 ≤ 7 ∧ n / 256 / 256 ^ j % 256 / 16 ≤ 7 := fun j => by
      rw [Nat.div_div_eq_div_mul, Nat.mul_comm, ← Nat.pow_succ]
      exact h (j + 1)
    have hdiv : (n + n / 16) / 256 = n / 256 + n / 256 / 16 := by omega
    have hlow : (n + n / 16) % 256 &&& 15 = n % 256 % 16 + n % 256 / 16 := by
      have hand := Nat.and_two_pow_sub_one_eq_mod ((n + n / 16) % 256) 4
      rw [show 15 = 2 ^ 4 - 1 by rfl, hand]
      omega
    rw [and_mask (by decide), hdiv, ih hnext, hlow, bytewise]

/-! ## Logarithms -/

/-- After a shift to a number of two bits, the shift is the logarithm but for one bit. -/
theorem log2_of_shift {n s : Nat} (h3 : n / 2 ^ s ≤ 3) (h0 : n / 2 ^ s ≠ 0 ∨ s = 0) :
    Nat.log2 n = s + n / 2 ^ s / 2 := by
  have hpos : 0 < 2 ^ s := by positivity
  have hdiv := Nat.div_add_mod n (2 ^ s)
  have hmod := Nat.mod_lt n hpos
  generalize n / 2 ^ s = a at *
  obtain rfl | rfl | rfl | rfl : a = 0 ∨ a = 1 ∨ a = 2 ∨ a = 3 := by omega
  · obtain rfl : s = 0 := h0.resolve_left (fun hne => hne rfl)
    have hn : n = 0 := by
      rw [Nat.pow_zero] at hdiv hmod
      omega
    rw [hn]
    rfl
  all_goals
    rw [Nat.log2_eq_iff (by omega), Nat.pow_succ]
    simp only [Nat.pow_add]
    omega

end BitCount
