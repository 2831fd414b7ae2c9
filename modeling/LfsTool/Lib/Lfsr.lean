import Mathlib.Algebra.Order.Ring.Nat
import Mathlib.Data.Nat.Bits

/-!
# Lfsr

Cyclic redundancy checks as a linear feedback shift register of `w` bits, the lowest bit first.

* `step poly c`: one bit out of the register; `steps` any number of them.
* `feed poly n c ds`: symbols of `n` bits put into the register one after the other.
* `steps_eq_lookup`: `n` steps are a shift and an exclusive or with what a table of `2 ^ n` entries
  has for the low bits.
* `feed_eq_steps_pack`: symbols that fit into the register together may be put into it all at once.
* `feed_inj_symbols`, `feed_burst`: so no two different ones of the same number lead to the same
  register, whatever is fed before and after them.
-/

namespace Lfsr

variable {w : Nat} {poly : BitVec w}

/-! ## Steps -/

def step (poly c : BitVec w) : BitVec w := if c.getLsbD 0 then (c >>> 1) ^^^ poly else c >>> 1

def steps (poly : BitVec w) : Nat → BitVec w → BitVec w
  | 0, c => c
  | n + 1, c => steps poly n (step poly c)

theorem xor_cancel (a b c : BitVec w) : (a ^^^ c) ^^^ (b ^^^ c) = a ^^^ b := by
  rw [BitVec.xor_comm b c, BitVec.xor_assoc, ← BitVec.xor_assoc c, BitVec.xor_self,
    BitVec.zero_xor]

theorem xor_eq_zero_iff {a b : BitVec w} : a ^^^ b = 0 ↔ a = b := by
  constructor
  · intro h
    have hxor := congrArg (· ^^^ b) h
    simpa [BitVec.xor_assoc] using hxor
  · rintro rfl
    exact BitVec.xor_self

theorem step_xor (a b : BitVec w) : step poly (a ^^^ b) = step poly a ^^^ step poly b := by
  unfold step
  rw [BitVec.getLsbD_xor, BitVec.ushiftRight_xor_distrib]
  cases a.getLsbD 0 <;> cases b.getLsbD 0 <;> simp
  · rw [BitVec.xor_assoc]
  · rw [BitVec.xor_assoc, BitVec.xor_assoc, BitVec.xor_comm poly]
  · exact (xor_cancel _ _ _).symm

theorem steps_xor (n : Nat) (a b : BitVec w) :
    steps poly n (a ^^^ b) = steps poly n a ^^^ steps poly n b := by
  induction n generalizing a b with
  | zero => rfl
  | succ n ih => rw [steps, step_xor, ih, ← steps, ← steps]

theorem steps_add (m n : Nat) (c : BitVec w) :
    steps poly (m + n) c = steps poly n (steps poly m c) := by
  induction m generalizing c with
  | zero => rw [Nat.zero_add, steps]
  | succ m ih => rw [Nat.succ_add, steps, ih, ← steps]

@[simp] theorem steps_zero (n : Nat) : steps poly n (0 : BitVec w) = 0 := by
  induction n with
  | zero => rfl
  | succ n ih => rw [steps, show step poly 0 = 0 by simp [step], ih]

/-- As long as only zeros come out, the register just moves down. -/
theorem steps_eq_shift {n : Nat} {c : BitVec w} (h : ∀ i < n, c.getLsbD i = false) :
    steps poly n c = c >>> n := by
  induction n generalizing c with
  | zero => simp [steps]
  | succ n ih =>
    have hstep : step poly c = c >>> 1 := by rw [step, h 0 (by omega)]; rfl
    rw [steps, hstep, ih, ← BitVec.shiftRight_add, Nat.add_comm]
    intro i hi
    rw [BitVec.getLsbD_ushiftRight]
    exact h (1 + i) (by omega)

/-- A polynomial with its highest bit set loses nothing. -/
theorem step_inj (htop : poly.getLsbD (w - 1) = true) {a b : BitVec w}
    (h : step poly a = step poly b) : a = b := by
  have hw : 0 < w := by
    rcases Nat.eq_zero_or_pos w with rfl | hw
    · simp at htop
    · exact hw
  have hzero : step poly (a ^^^ b) = 0 := by rw [step_xor, h, BitVec.xor_self]; rfl
  rw [← xor_eq_zero_iff]
  generalize a ^^^ b = c at hzero
  have htop' : (c >>> 1).getLsbD (w - 1) = false := by
    rw [BitVec.getLsbD_ushiftRight]
    exact BitVec.getLsbD_of_ge c _ (by omega)
  have hlow : c.getLsbD 0 = false := by
    cases hc : c.getLsbD 0 with
    | false => rfl
    | true =>
      have hbit := congrArg (BitVec.getLsbD · (w - 1)) hzero
      rw [step, hc, if_pos rfl, BitVec.getLsbD_xor, htop', htop] at hbit
      simp at hbit
  have hshift : c >>> 1 = 0 := by simpa [step, hlow] using hzero
  apply BitVec.eq_of_getLsbD_eq
  intro i _
  cases i with
  | zero => simpa using hlow
  | succ i =>
    have hbit := congrArg (BitVec.getLsbD · i) hshift
    simpa [Nat.add_comm] using hbit

theorem steps_inj (htop : poly.getLsbD (w - 1) = true) {n : Nat} {a b : BitVec w}
    (h : steps poly n a = steps poly n b) : a = b := by
  induction n generalizing a b with
  | zero => exact h
  | succ n ih => exact step_inj htop (ih h)

/-! ## A table for the low bits -/

/-- The lowest `n` bits. -/
def low (n : Nat) (c : BitVec w) : BitVec w := c &&& BitVec.ofNat w (2 ^ n - 1)

theorem getLsbD_low {n i : Nat} {c : BitVec w} :
    (low n c).getLsbD i = (decide (i < n) && c.getLsbD i) := by
  rw [low, BitVec.getLsbD_and, BitVec.getLsbD_ofNat, Nat.testBit_two_pow_sub_one]
  by_cases hi : i < w
  · simp [hi, Bool.and_comm]
  · simp [BitVec.getLsbD_of_ge c i (by omega)]

/-- What is left when the low bits are taken away moves down. -/
theorem steps_eq_lookup (n : Nat) (c : BitVec w) :
    steps poly n c = (c >>> n) ^^^ steps poly n (low n c) := by
  have hhigh : ∀ i < n, (c ^^^ low n c).getLsbD i = false := by
    intro i hi
    simp [getLsbD_low, hi]
  have hshift : (c ^^^ low n c) >>> n = c >>> n := by
    apply BitVec.eq_of_getLsbD_eq
    intro i _
    simp [getLsbD_low, show ¬n + i < n by omega]
  calc steps poly n c = steps poly n ((c ^^^ low n c) ^^^ low n c) := by
        rw [BitVec.xor_assoc, BitVec.xor_self, BitVec.xor_zero]
    _ = (c >>> n) ^^^ steps poly n (low n c) := by
        rw [steps_xor, steps_eq_shift hhigh, hshift]

/-! ## Symbols -/

def feed (poly : BitVec w) (n : Nat) (c : BitVec w) (ds : List (BitVec w)) : BitVec w :=
  ds.foldl (fun c d => steps poly n (c ^^^ d)) c

@[simp] theorem feed_nil (n : Nat) (c : BitVec w) : feed poly n c [] = c := rfl

@[simp] theorem feed_cons (n : Nat) (c d : BitVec w) (ds : List (BitVec w)) :
    feed poly n c (d :: ds) = feed poly n (steps poly n (c ^^^ d)) ds := rfl

theorem feed_append (n : Nat) (c : BitVec w) (ds ds' : List (BitVec w)) :
    feed poly n c (ds ++ ds') = feed poly n (feed poly n c ds) ds' := List.foldl_append

theorem feed_inj_state (htop : poly.getLsbD (w - 1) = true) {n : Nat} {c c' : BitVec w}
    {ds : List (BitVec w)} (h : feed poly n c ds = feed poly n c' ds) : c = c' := by
  induction ds generalizing c c' with
  | nil => exact h
  | cons d ds ih =>
    have hxor : c ^^^ d = c' ^^^ d := steps_inj htop (ih h)
    rw [← xor_eq_zero_iff] at hxor ⊢
    rwa [xor_cancel] at hxor

/-- No bit from the `n`-th on. -/
def Fits (n : Nat) (d : BitVec w) : Prop := ∀ i, n ≤ i → d.getLsbD i = false

/-- The symbols side by side, the first one lowest. -/
def pack (n : Nat) : List (BitVec w) → BitVec w
  | [] => 0
  | d :: ds => d ^^^ (pack n ds <<< n)

theorem pack_fits {n : Nat} {ds : List (BitVec w)} (h : ∀ d ∈ ds, Fits n d) :
    Fits (n * ds.length) (pack n ds) := by
  induction ds with
  | nil => intro i _; simp [pack]
  | cons d ds ih =>
    intro i hi
    rw [List.length_cons, Nat.mul_succ] at hi
    have hd : d.getLsbD i = false := h d List.mem_cons_self i (by omega)
    have hds : (pack n ds).getLsbD (i - n) = false :=
      ih (fun d' hd' => h d' (List.mem_cons_of_mem d hd')) (i - n) (by omega)
    simp [pack, hd, hds]

theorem shiftLeft_shiftRight_of_fits {n k : Nat} {c : BitVec w} (h : Fits k c) (hk : k + n ≤ w) :
    (c <<< n) >>> n = c := by
  apply BitVec.eq_of_getLsbD_eq
  intro i _
  rw [BitVec.getLsbD_ushiftRight, BitVec.getLsbD_shiftLeft, Nat.add_sub_cancel_left]
  by_cases hi : n + i < w
  · simp [hi]
  · rw [h i (by omega), Bool.and_false]

theorem feed_eq_steps_pack {n : Nat} {ds : List (BitVec w)} (c : BitVec w)
    (h : ∀ d ∈ ds, Fits n d) (hw : n * ds.length ≤ w) :
    feed poly n c ds = steps poly (n * ds.length) (c ^^^ pack n ds) := by
  induction ds generalizing c with
  | nil => simp [pack, steps]
  | cons d ds ih =>
    have hds : ∀ d' ∈ ds, Fits n d' := fun d' hd' => h d' (List.mem_cons_of_mem d hd')
    rw [List.length_cons, Nat.mul_succ] at hw
    have hmove : steps poly n (pack n ds <<< n) = pack n ds := by
      rw [steps_eq_shift, shiftLeft_shiftRight_of_fits (pack_fits hds) hw]
      intro i hi
      simp [hi]
    rw [feed_cons, ih _ hds (by omega), pack, List.length_cons, Nat.mul_succ, Nat.add_comm,
      steps_add, ← BitVec.xor_assoc, steps_xor n _ (pack n ds <<< n), hmove]

theorem pack_inj {n : Nat} {ds ds' : List (BitVec w)} (hlen : ds.length = ds'.length)
    (hw : n * ds.length ≤ w) (h : ∀ d ∈ ds, Fits n d) (h' : ∀ d ∈ ds', Fits n d)
    (heq : pack n ds = pack n ds') : ds = ds' := by
  induction ds generalizing ds' with
  | nil => exact (List.length_eq_zero_iff.mp hlen.symm).symm
  | cons d ds ih =>
    cases ds' with
    | nil => cases hlen
    | cons d' ds' =>
      have hds : ∀ e ∈ ds, Fits n e := fun e he => h e (List.mem_cons_of_mem d he)
      have hds' : ∀ e ∈ ds', Fits n e := fun e he => h' e (List.mem_cons_of_mem d' he)
      have hlen' : ds.length = ds'.length := Nat.succ.inj hlen
      rw [List.length_cons, Nat.mul_succ] at hw
      have hd : d = d' := by
        apply BitVec.eq_of_getLsbD_eq
        intro i _
        by_cases hi : i < n
        · have hbit := congrArg (BitVec.getLsbD · i) heq
          simpa [pack, hi] using hbit
        · rw [h d List.mem_cons_self i (by omega), h' d' List.mem_cons_self i (by omega)]
      have hpack : pack n ds <<< n = pack n ds' <<< n := by
        have hxor := congrArg (d ^^^ ·) heq
        simpa [pack, ← hd, ← BitVec.xor_assoc] using hxor
      have hrest : pack n ds = pack n ds' := by
        rw [← shiftLeft_shiftRight_of_fits (pack_fits hds) hw, hpack,
          shiftLeft_shiftRight_of_fits (pack_fits hds') (by rw [← hlen']; exact hw)]
      rw [hd, ih hlen' (by omega) hds hds' hrest]

theorem feed_inj_symbols (htop : poly.getLsbD (w - 1) = true) {n : Nat} {c : BitVec w}
    {ds ds' : List (BitVec w)} (hlen : ds.length = ds'.length) (hw : n * ds.length ≤ w)
    (h : ∀ d ∈ ds, Fits n d) (h' : ∀ d ∈ ds', Fits n d)
    (heq : feed poly n c ds = feed poly n c ds') : ds = ds' := by
  rw [feed_eq_steps_pack c h hw, feed_eq_steps_pack c h' (hlen ▸ hw), ← hlen] at heq
  have hxor := steps_inj htop heq
  apply pack_inj hlen hw h h'
  rw [← xor_eq_zero_iff] at hxor ⊢
  rwa [BitVec.xor_comm c, BitVec.xor_comm c, xor_cancel] at hxor

/-- A change that is not wider than the register is seen at the end. -/
theorem feed_burst (htop : poly.getLsbD (w - 1) = true) {n : Nat} {c : BitVec w}
    {before ds ds' after : List (BitVec w)} (hlen : ds.length = ds'.length)
    (hw : n * ds.length ≤ w) (h : ∀ d ∈ ds, Fits n d) (h' : ∀ d ∈ ds', Fits n d)
    (heq : feed poly n c (before ++ ds ++ after) = feed poly n c (before ++ ds' ++ after)) :
    ds = ds' := by
  simp only [feed_append] at heq
  exact feed_inj_symbols htop hlen hw h h' (feed_inj_state htop heq)

end Lfsr
