import LfsTool.Lib.Lfsr
import LfsTool.Lib.BitCount

/-!
# LfsTool.LfsUtil

`lfs_util.c` and `lfs_util.h`: the checksum and the arithmetic littlefs is built from. Of a function
with an intrinsic it is the lines without it that are embedded.

* `lfsAlignup_eq`: `lfs_alignup` rounds up, where its sum fits.
* `lfsCrc_eq_feed`: `lfs_crc` with its table of 16 entries is the bit by bit checksum.
* `lfsCrc_burst`: a change within four bytes always changes the checksum.
* `lfsCrc_append_eq_zero_iff`: data followed by four bytes has checksum 0 exactly if they are its own.
* `lfsNpw2_toNat`, `lfsCtz_toNat`, `lfsPopc_toNat`: the three bit counts are the mathematical ones.
-/

namespace LfsTool

open Lfsr BitCount

/-! ## Words -/

theorem toNat_ne_zero {a : UInt32} : a ≠ 0 ↔ 0 < a.toNat := by
  rw [Nat.pos_iff_ne_zero, ne_eq, ne_eq, ← UInt32.toNat_inj]
  rfl

theorem mod_eq_zero {a b : UInt32} : a % b = 0 ↔ a.toNat % b.toNat = 0 := by
  rw [← UInt32.toNat_inj, UInt32.toNat_mod]
  rfl

theorem toNat_toUInt32 {n : Nat} {a : UInt32} (h : n ≤ a.toNat) : n.toUInt32.toNat = n :=
  UInt32.toNat_ofNat_of_lt' (Nat.lt_of_le_of_lt h a.toNat_lt)

/-! ### Offsets

Offsets and sizes are numbers; `add32` and `sub32` are `+` and `-` on them where C has them in `uint32_t`. -/

def add32 (a b : Nat) : Nat := (a + b) % 2 ^ 32

def sub32 (a b : Nat) : Nat := (a + (2 ^ 32 - b)) % 2 ^ 32

theorem add32_eq {a b : Nat} (h : a + b < 2 ^ 32) : add32 a b = a + b := by
  rw [add32]
  exact Nat.mod_eq_of_lt h

theorem sub32_eq {a b : Nat} (hle : b ≤ a) (h : a < 2 ^ 32) : sub32 a b = a - b := by
  rw [sub32]
  omega

def lfsMin (a b : UInt32) : UInt32 := if a < b then a else b

def lfsAligndown (a alignment : Nat) : Nat := a - a % alignment

def lfsAlignup (a alignment : Nat) : Nat := lfsAligndown (sub32 (add32 a alignment) 1) alignment

theorem lfsMin_toNat (a b : UInt32) : (lfsMin a b).toNat = min a.toNat b.toNat := by
  rw [lfsMin]
  split
  · rename_i h
    exact (Nat.min_eq_left (Nat.le_of_lt (UInt32.lt_iff_toNat_lt.mp h))).symm
  · rename_i h
    exact (Nat.min_eq_right (Nat.le_of_not_lt fun hlt => h (UInt32.lt_iff_toNat_lt.mpr hlt))).symm

theorem lfsAligndown_eq (a alignment : Nat) : lfsAligndown a alignment = alignment * (a / alignment) := by
  have := Nat.div_add_mod a alignment
  rw [lfsAligndown]
  omega

theorem lfsAligndown_le (a alignment : Nat) : lfsAligndown a alignment ≤ a := Nat.sub_le _ _

theorem lt_lfsAligndown_add {alignment : Nat} (h : 0 < alignment) (a : Nat) :
    a < lfsAligndown a alignment + alignment := by
  have := Nat.mod_lt a h
  rw [lfsAligndown]
  omega

theorem dvd_lfsAlignup (a alignment : Nat) : alignment ∣ lfsAlignup a alignment := by
  rw [lfsAlignup, lfsAligndown_eq]
  exact Nat.dvd_mul_right _ _

section Alignup

variable {a alignment : Nat} (h : 0 < alignment) (hw : a + alignment ≤ 2 ^ 32)

include h hw

/-- Where the sum fits, `lfs_alignup` rounds up. -/
theorem lfsAlignup_eq : lfsAlignup a alignment = lfsAligndown (a + alignment - 1) alignment := by
  have hsum : ((a + alignment) % 2 ^ 32 + (2 ^ 32 - 1)) % 2 ^ 32 = a + alignment - 1 := by omega
  rw [lfsAlignup, sub32, add32, hsum]

theorem le_lfsAlignup : a ≤ lfsAlignup a alignment := by
  have := lt_lfsAligndown_add h (a + alignment - 1)
  rw [lfsAlignup_eq h hw]
  omega

theorem lfsAlignup_lt : lfsAlignup a alignment < a + alignment := by
  have := lfsAligndown_le (a + alignment - 1) alignment
  rw [lfsAlignup_eq h hw]
  omega

theorem lfsAlignup_of_dvd (hd : alignment ∣ a) : lfsAlignup a alignment = a := by
  obtain ⟨k, rfl⟩ := hd
  obtain ⟨j, hj⟩ := dvd_lfsAlignup (alignment * k) alignment
  have hle := le_lfsAlignup h hw
  have hlt := lfsAlignup_lt h hw
  rw [hj] at hle hlt ⊢
  have h₁ := Nat.le_of_mul_le_mul_left hle h
  have h₂ : j < k + 1 := Nat.lt_of_mul_lt_mul_left (a := alignment) (by rw [Nat.mul_succ]; exact hlt)
  rw [show j = k by omega]

theorem lfsAlignup_le {m : Nat} (ha : a ≤ m) (hd : alignment ∣ m) : lfsAlignup a alignment ≤ m := by
  obtain ⟨k, rfl⟩ := hd
  obtain ⟨j, hj⟩ := dvd_lfsAlignup a alignment
  have hlt := lfsAlignup_lt h hw
  rw [hj] at hlt ⊢
  have hjk : j < k + 1 :=
    Nat.lt_of_mul_lt_mul_left (a := alignment) (by rw [Nat.mul_succ]; omega)
  exact Nat.mul_le_mul_left alignment (by omega)

end Alignup

theorem lfsAlignup_add {a b alignment : Nat} (h : 0 < alignment) (hw : a + b + alignment ≤ 2 ^ 32)
    (hd : alignment ∣ a) : lfsAlignup (a + b) alignment = a + lfsAlignup b alignment := by
  rw [lfsAlignup_eq h hw, lfsAlignup_eq h (by omega)]
  obtain ⟨k, rfl⟩ := hd
  have hsum : alignment * k + b + alignment - 1 = alignment * k + (b + alignment - 1) := by omega
  have hle := Nat.mod_le (b + alignment - 1) alignment
  simp only [lfsAligndown]
  rw [hsum, Nat.mul_add_mod]
  omega

/-! ## Words in memory -/

/-- The bytes `lfs_tole32` leaves in memory. -/
def le32 (a : UInt32) : List UInt8 :=
  [a.toUInt8, (a >>> 8).toUInt8, (a >>> 16).toUInt8, (a >>> 24).toUInt8]

/-- The bytes `lfs_tobe32` leaves in memory. -/
def be32 (a : UInt32) : List UInt8 :=
  [(a >>> 24).toUInt8, (a >>> 16).toUInt8, (a >>> 8).toUInt8, a.toUInt8]

def lfsFromle32 (b : List UInt8) : UInt32 :=
  ((b.getD 0 0).toUInt32 <<< 0) ||| ((b.getD 1 0).toUInt32 <<< 8) |||
    ((b.getD 2 0).toUInt32 <<< 16) ||| ((b.getD 3 0).toUInt32 <<< 24)

def lfsFrombe32 (b : List UInt8) : UInt32 :=
  ((b.getD 0 0).toUInt32 <<< 24) ||| ((b.getD 1 0).toUInt32 <<< 16) |||
    ((b.getD 2 0).toUInt32 <<< 8) ||| ((b.getD 3 0).toUInt32 <<< 0)

@[simp] theorem le32_length (a : UInt32) : (le32 a).length = 4 := rfl

@[simp] theorem be32_length (a : UInt32) : (be32 a).length = 4 := rfl

/-- Two bit fields, the second one above the first. -/
theorem toNat_or_of_lt {x y : UInt32} {k n : Nat} (hx : x.toNat < 2 ^ k) (hy : y.toNat = 2 ^ k * n) :
    (x ||| y).toNat = x.toNat + y.toNat := by
  rw [UInt32.toNat_or, hy, Nat.or_comm, ← Nat.two_pow_add_eq_or_of_lt hx, Nat.add_comm]

theorem toNat_shiftLeft_of_lt {x : UInt32} {k : Nat} (hk : k < 32) (hx : 2 ^ k * x.toNat < 2 ^ 32) :
    (x <<< UInt32.ofNat k).toNat = 2 ^ k * x.toNat := by
  rw [UInt32.toNat_shiftLeft, UInt32.toNat_ofNat', Nat.mod_eq_of_lt (a := k) (by omega),
    Nat.mod_eq_of_lt hk, Nat.shiftLeft_eq, Nat.mul_comm, Nat.mod_eq_of_lt hx]

theorem toNat_bytes (b₀ b₁ b₂ b₃ : UInt8) :
    (b₀.toUInt32 <<< 0 ||| b₁.toUInt32 <<< 8 ||| b₂.toUInt32 <<< 16 ||| b₃.toUInt32 <<< 24).toNat =
      b₀.toNat + 2 ^ 8 * b₁.toNat + 2 ^ 16 * b₂.toNat + 2 ^ 24 * b₃.toNat := by
  have h₀ := b₀.toNat_lt
  have h₁ := b₁.toNat_lt
  have h₂ := b₂.toNat_lt
  have h₃ := b₃.toNat_lt
  have e₀ : (b₀.toUInt32 <<< 0).toNat = b₀.toNat := by simp
  have e₁ : (b₁.toUInt32 <<< 8).toNat = 2 ^ 8 * b₁.toNat :=
    toNat_shiftLeft_of_lt (k := 8) (by decide) (by rw [UInt8.toNat_toUInt32]; omega)
  have e₂ : (b₂.toUInt32 <<< 16).toNat = 2 ^ 16 * b₂.toNat :=
    toNat_shiftLeft_of_lt (k := 16) (by decide) (by rw [UInt8.toNat_toUInt32]; omega)
  have e₃ : (b₃.toUInt32 <<< 24).toNat = 2 ^ 24 * b₃.toNat :=
    toNat_shiftLeft_of_lt (k := 24) (by decide) (by rw [UInt8.toNat_toUInt32]; omega)
  have o₁ := toNat_or_of_lt (x := b₀.toUInt32 <<< 0) (by rw [e₀]; exact h₀) e₁
  have o₂ := toNat_or_of_lt (x := b₀.toUInt32 <<< 0 ||| b₁.toUInt32 <<< 8)
    (by rw [o₁, e₀, e₁]; omega) e₂
  rw [toNat_or_of_lt (by rw [o₂, o₁, e₀, e₁, e₂]; omega) e₃, o₂, o₁, e₀, e₁, e₂, e₃]

theorem lfsFromle32_toNat (b₀ b₁ b₂ b₃ : UInt8) : (lfsFromle32 [b₀, b₁, b₂, b₃]).toNat =
    b₀.toNat + 2 ^ 8 * b₁.toNat + 2 ^ 16 * b₂.toNat + 2 ^ 24 * b₃.toNat := toNat_bytes b₀ b₁ b₂ b₃

theorem lfsFrombe32_eq (b₀ b₁ b₂ b₃ : UInt8) :
    lfsFrombe32 [b₀, b₁, b₂, b₃] = lfsFromle32 [b₃, b₂, b₁, b₀] := by
  show b₀.toUInt32 <<< 24 ||| b₁.toUInt32 <<< 16 ||| b₂.toUInt32 <<< 8 ||| b₃.toUInt32 <<< 0 =
    b₃.toUInt32 <<< 0 ||| b₂.toUInt32 <<< 8 ||| b₁.toUInt32 <<< 16 ||| b₀.toUInt32 <<< 24
  rw [UInt32.or_comm, UInt32.or_comm (b₀.toUInt32 <<< 24 ||| b₁.toUInt32 <<< 16),
    UInt32.or_comm (b₀.toUInt32 <<< 24), ← UInt32.or_assoc, ← UInt32.or_assoc]

theorem toUInt8_toNat (a : UInt32) {k : Nat} (hk : k < 32) :
    (a >>> UInt32.ofNat k).toUInt8.toNat = a.toNat / 2 ^ k % 2 ^ 8 := by
  rw [UInt32.toNat_toUInt8, UInt32.toNat_shiftRight, UInt32.toNat_ofNat',
    Nat.mod_eq_of_lt (a := k) (by omega), Nat.mod_eq_of_lt hk, Nat.shiftRight_eq_div_pow]

theorem byte_toNat (a : UInt32) : a.toUInt8.toNat = a.toNat % 2 ^ 8 ∧
    (a >>> 8).toUInt8.toNat = a.toNat / 2 ^ 8 % 2 ^ 8 ∧
    (a >>> 16).toUInt8.toNat = a.toNat / 2 ^ 16 % 2 ^ 8 ∧
    (a >>> 24).toUInt8.toNat = a.toNat / 2 ^ 24 % 2 ^ 8 :=
  ⟨UInt32.toNat_toUInt8 a, toUInt8_toNat a (k := 8) (by decide),
    toUInt8_toNat a (k := 16) (by decide), toUInt8_toNat a (k := 24) (by decide)⟩

@[simp] theorem lfsFromle32_le32 (a : UInt32) : lfsFromle32 (le32 a) = a := by
  obtain ⟨h₀, h₁, h₂, h₃⟩ := byte_toNat a
  have ha := a.toNat_lt
  rw [← UInt32.toNat_inj, le32, lfsFromle32_toNat, h₀, h₁, h₂, h₃]
  omega

@[simp] theorem lfsFrombe32_be32 (a : UInt32) : lfsFrombe32 (be32 a) = a := by
  rw [be32, lfsFrombe32_eq]
  exact lfsFromle32_le32 a

theorem exists_bytes {b : List UInt8} (h : b.length = 4) : ∃ b₀ b₁ b₂ b₃, b = [b₀, b₁, b₂, b₃] :=
  ⟨_, _, _, _, List.eq_getElem_of_length_eq_four b h⟩

theorem le32_lfsFromle32 {b : List UInt8} (h : b.length = 4) : le32 (lfsFromle32 b) = b := by
  obtain ⟨b₀, b₁, b₂, b₃, rfl⟩ := exists_bytes h
  obtain ⟨e₀, e₁, e₂, e₃⟩ := byte_toNat (lfsFromle32 [b₀, b₁, b₂, b₃])
  have h₀ := b₀.toNat_lt
  have h₁ := b₁.toNat_lt
  have h₂ := b₂.toNat_lt
  have h₃ := b₃.toNat_lt
  simp only [le32, List.cons.injEq, and_true, ← UInt8.toNat_inj, e₀, e₁, e₂, e₃, lfsFromle32_toNat]
  omega

theorem be32_lfsFrombe32 {b : List UInt8} (h : b.length = 4) : be32 (lfsFrombe32 b) = b := by
  obtain ⟨b₀, b₁, b₂, b₃, rfl⟩ := exists_bytes h
  have hle : le32 (lfsFromle32 [b₃, b₂, b₁, b₀]) = [b₃, b₂, b₁, b₀] := le32_lfsFromle32 rfl
  rw [lfsFrombe32_eq]
  exact congrArg List.reverse hle

/-! ## `lfs_crc` -/

def rtable : List UInt32 := [
  0x00000000, 0x1db71064, 0x3b6e20c8, 0x26d930ac,
  0x76dc4190, 0x6b6b51f4, 0x4db26158, 0x5005713c,
  0xedb88320, 0xf00f9344, 0xd6d6a3e8, 0xcb61b38c,
  0x9b64c2b0, 0x86d3d2d4, 0xa00ae278, 0xbdbdf21c]

def lfsCrc (crc : UInt32) (data : List UInt8) : UInt32 :=
  data.foldl (fun crc b =>
    let crc := (crc >>> 4) ^^^ rtable.getD ((crc ^^^ (b.toUInt32 >>> 0)) &&& 0xf).toNat 0
    (crc >>> 4) ^^^ rtable.getD ((crc ^^^ (b.toUInt32 >>> 4)) &&& 0xf).toNat 0) crc

/-- `0x04c11db7`, the lowest bit first. -/
def crcPolynomial : BitVec 32 := (0x04c11db7#32).reverse

theorem crcPolynomial_eq : crcPolynomial = 0xedb88320#32 := by decide +kernel

theorem crcPolynomial_top : crcPolynomial.getLsbD (32 - 1) = true := by
  rw [crcPolynomial_eq]
  rfl

/-- The table has four steps of each number of four bits. -/
theorem rtable_steps : ∀ i : Fin 16,
    (rtable.getD i 0).toBitVec = steps crcPolynomial 4 (BitVec.ofNat 32 i) := by
  rw [crcPolynomial_eq]
  decide +kernel

/-- Half a byte into the register, with the table. -/
theorem lookup_toBitVec (crc d : UInt32) :
    ((crc >>> 4) ^^^ rtable.getD ((crc ^^^ d) &&& 0xf).toNat 0).toBitVec =
      steps crcPolynomial 4 (crc.toBitVec ^^^ low 4 d.toBitVec) := by
  have hlt : ((crc ^^^ d) &&& 0xf).toNat < 16 := by
    rw [UInt32.toNat_and]
    exact Nat.lt_of_le_of_lt Nat.and_le_right (by decide)
  have hindex : BitVec.ofNat 32 ((crc ^^^ d) &&& 0xf).toNat = low 4 (crc.toBitVec ^^^ d.toBitVec) := by
    simp [low]
  have hlow : low 4 (crc.toBitVec ^^^ low 4 d.toBitVec) = low 4 (crc.toBitVec ^^^ d.toBitVec) := by
    apply BitVec.eq_of_getLsbD_eq
    intro i _
    by_cases hi : i < 4 <;> simp [getLsbD_low, hi]
  have hshift : (crc.toBitVec ^^^ low 4 d.toBitVec) >>> 4 = crc.toBitVec >>> 4 := by
    apply BitVec.eq_of_getLsbD_eq
    intro i _
    simp [getLsbD_low]
  rw [UInt32.toBitVec_xor, rtable_steps ⟨_, hlt⟩, hindex,
    steps_eq_lookup 4 (crc.toBitVec ^^^ low 4 d.toBitVec), hshift, hlow]
  rfl

/-- A byte as a symbol for the register. -/
def symbol (b : UInt8) : BitVec 32 := b.toBitVec.setWidth 32

theorem symbol_fits (b : UInt8) : Fits 8 (symbol b) := by
  intro i hi
  rw [symbol, BitVec.getLsbD_setWidth, BitVec.getLsbD_of_ge b.toBitVec i hi, Bool.and_false]

theorem symbols_fit (data : List UInt8) : ∀ d ∈ data.map symbol, Fits 8 d := by
  intro d hd
  obtain ⟨b, -, rfl⟩ := List.mem_map.mp hd
  exact symbol_fits b

theorem symbol_inj {b b' : UInt8} (h : symbol b = symbol b') : b = b' := by
  have hset := congrArg (BitVec.setWidth 8) h
  simpa [symbol, UInt8.toBitVec_inj] using hset

theorem halves_eq_symbol (b : UInt8) :
    pack 4 [low 4 (symbol b), low 4 (symbol b >>> 4)] = symbol b := by
  apply BitVec.eq_of_getLsbD_eq
  intro i hi
  simp only [pack, BitVec.getLsbD_xor, BitVec.getLsbD_shiftLeft, getLsbD_low,
    BitVec.getLsbD_ushiftRight]
  by_cases h4 : i < 4
  · simp [h4]
  · by_cases h8 : i < 8
    · simp [h4, hi, show i - 4 < 4 by omega, show 4 + (i - 4) = i by omega]
    · simp [h4, show ¬i - 4 < 4 by omega, symbol_fits b i (by omega)]

/-- The checksum, a byte at a time and a bit at a time. -/
theorem lfsCrc_eq_feed (crc : UInt32) (data : List UInt8) :
    (lfsCrc crc data).toBitVec = feed crcPolynomial 8 crc.toBitVec (data.map symbol) := by
  induction data generalizing crc with
  | nil => rfl
  | cons b data ih =>
    have hlow : ∀ d ∈ [low 4 (symbol b), low 4 (symbol b >>> 4)], Fits 4 d := by
      intro d hd i hi
      simp only [List.mem_cons, List.not_mem_nil, or_false] at hd
      rcases hd with rfl | rfl <;> simp [getLsbD_low, show ¬i < 4 by omega]
    have hbyte : feed crcPolynomial 4 crc.toBitVec [low 4 (symbol b), low 4 (symbol b >>> 4)] =
        steps crcPolynomial 8 (crc.toBitVec ^^^ symbol b) := by
      rw [feed_eq_steps_pack _ hlow (by simp), halves_eq_symbol]
      rfl
    rw [List.map_cons, feed_cons]
    refine (ih _).trans ?_
    congr 1
    simp only [lookup_toBitVec]
    simpa [symbol] using hbyte

theorem lfsCrc_append (crc : UInt32) (data data' : List UInt8) :
    lfsCrc crc (data ++ data') = lfsCrc (lfsCrc crc data) data' := List.foldl_append

theorem map_symbol_inj {data data' : List UInt8} (h : data.map symbol = data'.map symbol) :
    data = data' := List.map_injective_iff.mpr (fun _ _ => symbol_inj) h

theorem lfsCrc_burst {crc : UInt32} {before data data' after : List UInt8}
    (hlen : data.length = data'.length) (h4 : data.length ≤ 4) (hne : data ≠ data') :
    lfsCrc crc (before ++ data ++ after) ≠ lfsCrc crc (before ++ data' ++ after) := by
  intro h
  apply hne
  apply map_symbol_inj
  have hbit := congrArg UInt32.toBitVec h
  simp only [lfsCrc_eq_feed, List.map_append] at hbit
  refine feed_burst crcPolynomial_top (by simpa using hlen) ?_ (symbols_fit _) (symbols_fit _) hbit
  rw [List.length_map]
  omega

theorem lfsCrc_burst_oneByte : lfsCrc 0xffffffff ([1, 2] ++ [3] ++ [4]) ≠ lfsCrc 0xffffffff ([1, 2] ++ [7] ++ [4]) :=
  lfsCrc_burst rfl (by decide) (by decide)

theorem pack_le32 (a : UInt32) : pack 8 ((le32 a).map symbol) = a.toBitVec := by
  apply BitVec.eq_of_getLsbD_eq
  intro i hi
  simp only [le32, List.map_cons, List.map_nil, pack, symbol]
  rcases (by omega : i < 8 ∨ 8 ≤ i ∧ i < 16 ∨ 16 ≤ i ∧ i < 24 ∨ 24 ≤ i) with h | h | h | h
  · simp [h, hi]
  · simp [show ¬i < 8 by omega, show i - 8 < 8 by omega, hi, h, show i - 8 < 32 by omega]
  · simp [show ¬i < 8 by omega, show ¬i - 8 < 8 by omega, show i - 8 - 8 < 8 by omega, hi,
      show i - 8 < 32 by omega, show i - 8 - 8 < 32 by omega, show 16 + (i - 8 - 8) = i by omega]
  · simp [show ¬i < 8 by omega, show ¬i - 8 < 8 by omega, show ¬i - 8 - 8 < 8 by omega,
      show i - 8 - 8 - 8 < 8 by omega, hi, show i - 8 < 32 by omega, show i - 8 - 8 < 32 by omega,
      show i - 8 - 8 - 8 < 32 by omega, show 24 + (i - 8 - 8 - 8) = i by omega]

theorem lfsCrc_append_eq_zero_iff {crc : UInt32} {data stored : List UInt8}
    (hlen : stored.length = 4) :
    lfsCrc crc (data ++ stored) = 0 ↔ stored = le32 (lfsCrc crc data) := by
  have hw : 8 * (stored.map symbol).length ≤ 32 := by rw [List.length_map, hlen]
  rw [lfsCrc_append, ← UInt32.toBitVec_inj, lfsCrc_eq_feed, feed_eq_steps_pack _ (symbols_fit _) hw]
  constructor
  · intro h
    have hxor := steps_inj crcPolynomial_top (h.trans (steps_zero _).symm)
    rw [xor_eq_zero_iff, ← pack_le32] at hxor
    exact map_symbol_inj (pack_inj (by simp [hlen, le32]) hw (symbols_fit _) (symbols_fit _) hxor.symm)
  · rintro rfl
    rw [pack_le32, BitVec.xor_self]
    exact steps_zero _

theorem lfsCrc_append_eq_zero_iff_oneByte : lfsCrc 0xffffffff ([1] ++ [228, 32, 250, 90]) = 0 ↔
    [228, 32, 250, 90] = le32 (lfsCrc 0xffffffff [1]) :=
  lfsCrc_append_eq_zero_iff rfl

/-! ## Bit counts -/

/-- `lfs_npw2`, the lines without the intrinsic -/
def lfsNpw2 (a : UInt32) : UInt32 :=
  let a := a - 1
  let s := (if a > 0xffff then 1 else 0 : UInt32) <<< 4
  let a := a >>> s
  let r := s
  let s := (if a > 0xff then 1 else 0 : UInt32) <<< 3
  let a := a >>> s
  let r := r ||| s
  let s := (if a > 0xf then 1 else 0 : UInt32) <<< 2
  let a := a >>> s
  let r := r ||| s
  let s := (if a > 0x3 then 1 else 0 : UInt32) <<< 1
  let a := a >>> s
  let r := r ||| s
  (r ||| (a >>> 1)) + 1

def lfsCtz (a : UInt32) : UInt32 := lfsNpw2 ((a &&& -a) + 1) - 1

def lfsPopc (a : UInt32) : UInt32 :=
  let a := a - ((a >>> 1) &&& (0x55555555 : UInt32))
  let a := (a &&& (0x33333333 : UInt32)) + ((a >>> 2) &&& (0x33333333 : UInt32))
  (((a + (a >>> 4)) &&& (0xf0f0f0f : UInt32)) * 0x1010101) >>> 24

theorem toNat_shiftRight_of_lt (a : UInt32) {k : Nat} (hk : k < 32) :
    (a >>> UInt32.ofNat k).toNat = a.toNat / 2 ^ k := by
  rw [UInt32.toNat_shiftRight, UInt32.toNat_ofNat', Nat.mod_eq_of_lt (a := k) (by omega),
    Nat.mod_eq_of_lt hk, Nat.shiftRight_eq_div_pow]

theorem ite_shiftLeft (p : Prop) [Decidable p] (k : UInt32) :
    (if p then 1 else 0 : UInt32) <<< k = if p then 1 <<< k else 0 := by
  split
  · rfl
  · simp

/-- The last line of `lfs_npw2`, when two bits of `b` are left and the shifts are the bits of `r`. -/
theorem npw2_last_toNat {r a b : UInt32} (hr : r.toNat % 2 = 0) (hr31 : r.toNat < 32)
    (ha : a.toNat = b.toNat / 2 ^ r.toNat) (h3 : a.toNat ≤ 3) (h0 : a.toNat ≠ 0 ∨ r.toNat = 0) :
    ((r ||| (a >>> 1)) + 1).toNat = Nat.log2 b.toNat + 1 := by
  have hlast : (a >>> 1).toNat = a.toNat / 2 := toNat_shiftRight_of_lt a (k := 1) (by decide)
  have hor : (r ||| (a >>> 1)).toNat = r.toNat + a.toNat / 2 := by
    rw [UInt32.or_comm, toNat_or_of_lt (k := 1) (n := r.toNat / 2) (by rw [hlast]; omega) (by omega),
      hlast, Nat.add_comm]
  have hlog : Nat.log2 b.toNat = r.toNat + a.toNat / 2 := by
    rw [ha] at h3 h0 ⊢
    exact log2_of_shift h3 h0
  have hone : (1 : UInt32).toNat = 1 := rfl
  rw [UInt32.toNat_add, hor, hlog, hone, Nat.mod_eq_of_lt (by omega)]

theorem lfsNpw2_toNat (a : UInt32) : (lfsNpw2 a).toNat = Nat.log2 (a - 1).toNat + 1 := by
  have s4 : ∀ b : UInt32, (b >>> 16).toNat = b.toNat / 65536 :=
    fun b => toNat_shiftRight_of_lt b (k := 16) (by decide)
  have s3 : ∀ b : UInt32, (b >>> 8).toNat = b.toNat / 256 :=
    fun b => toNat_shiftRight_of_lt b (k := 8) (by decide)
  have s2 : ∀ b : UInt32, (b >>> 4).toNat = b.toNat / 16 :=
    fun b => toNat_shiftRight_of_lt b (k := 4) (by decide)
  have s1 : ∀ b : UInt32, (b >>> 2).toNat = b.toNat / 4 :=
    fun b => toNat_shiftRight_of_lt b (k := 2) (by decide)
  have s0 : ∀ b : UInt32, (b >>> 0).toNat = b.toNat :=
    fun b => (toNat_shiftRight_of_lt b (k := 0) (by decide)).trans (Nat.div_one _)
  have c4 : (1 : UInt32) <<< 4 = 16 := by decide
  have c3 : (1 : UInt32) <<< 3 = 8 := by decide
  have c2 : (1 : UInt32) <<< 2 = 4 := by decide
  have c1 : (1 : UInt32) <<< 1 = 2 := by decide
  have l4 : (0xffff : UInt32).toNat = 65535 := rfl
  have l3 : (0xff : UInt32).toNat = 255 := rfl
  have l2 : (0xf : UInt32).toNat = 15 := rfl
  have l1 : (0x3 : UInt32).toNat = 3 := rfl
  simp only [lfsNpw2, ite_shiftLeft, c4, c3, c2, c1, gt_iff_lt, UInt32.lt_iff_toNat_lt, l4, l3, l2, l1]
  generalize a - 1 = b
  have hb := b.toNat_lt
  -- which of the four shifts are made
  split_ifs <;> rename_i h4 h3 h2 h1 <;> simp only [s4, s3, s2, s0] at h4 h3 h2 h1
  all_goals
    refine npw2_last_toNat (by decide) (by decide) ?_ ?_ ?_
    · simp only [s4, s3, s2, s1, s0, Nat.div_div_eq_div_mul]
      first | rfl | exact (Nat.div_one _).symm
    · simp only [s4, s3, s2, s1, s0]
      omega
    · simp only [s4, s3, s2, s1, s0]
      first | exact .inr rfl | exact .inl (by omega)

theorem lfsCtz_toNat {a : UInt32} (h : a ≠ 0) : (lfsCtz a).toNat = trailing a.toNat := by
  have ha := a.toNat_lt
  have hpos : a.toNat ≠ 0 := fun hz => h (UInt32.toNat_inj.mp hz)
  have hand : (a &&& -a).toNat = 2 ^ trailing a.toNat := by
    have hneg : (-a).toNat = 2 ^ 32 - a.toNat := by
      rw [UInt32.toNat_neg]
      exact Nat.mod_eq_of_lt (show 2 ^ 32 - a.toNat < 2 ^ 32 by omega)
    rw [UInt32.toNat_and, hneg]
    exact and_neg hpos ha
  have hle := two_pow_trailing_le hpos
  have hone : (1 : UInt32).toNat = 1 := rfl
  have hsub : ((a &&& -a) + 1 - 1).toNat = 2 ^ trailing a.toNat := by
    rw [UInt32.add_sub_cancel, hand]
  have hnpw2 : (lfsNpw2 ((a &&& -a) + 1)).toNat = trailing a.toNat + 1 := by
    rw [lfsNpw2_toNat, hsub, Nat.log2_two_pow]
  have hle1 : 1 ≤ lfsNpw2 ((a &&& -a) + 1) := by
    rw [UInt32.le_iff_toNat_le, hnpw2, hone]
    omega
  rw [lfsCtz, UInt32.toNat_sub_of_le _ _ hle1, hnpw2, hone, Nat.add_sub_cancel]

/-- The first line of `lfs_popc` in one byte, and the second. -/
def popcPairs (b : Nat) : Nat := b - ((b / 2) &&& 0x55)

def popcHalves (b : Nat) : Nat := (b &&& 0x33) + ((b / 4) &&& 0x33)

theorem popcHalves_spec : ∀ b : Fin 256, popcHalves (popcPairs b) % 16 ≤ 7 ∧
    popcHalves (popcPairs b) / 16 ≤ 7 ∧
    popcHalves (popcPairs b) % 16 + popcHalves (popcPairs b) / 16 = popcount b := by decide +kernel

theorem popcPairs_toNat (a : UInt32) :
    (a - ((a >>> 1) &&& (0x55555555 : UInt32))).toNat = bytewise popcPairs 4 a.toNat := by
  have hmask : ((a >>> 1) &&& (0x55555555 : UInt32)).toNat =
      bytewise (fun b => (b / 2) &&& 0x55) 4 a.toNat := by
    have hshift : (a >>> 1).toNat = a.toNat / 2 ^ 1 := toNat_shiftRight_of_lt a (by decide)
    rw [UInt32.toNat_and, hshift]
    exact shift_and_mask (s := 1) (m := 0x55) (by decide) (by decide) 4 a.toNat
  have hsum : bytewise popcPairs 4 a.toNat + bytewise (fun b => (b / 2) &&& 0x55) 4 a.toNat =
      a.toNat := by
    rw [← bytewise_add]
    refine Eq.trans (bytewise_congr (fun b _ => ?_) 4 a.toNat) (bytewise_id a.toNat_lt)
    have hle : (b / 2) &&& 0x55 ≤ b / 2 := Nat.and_le_left
    simp only [popcPairs, id]
    omega
  have hle : (a >>> 1) &&& (0x55555555 : UInt32) ≤ a := by
    rw [UInt32.le_iff_toNat_le, hmask]
    omega
  rw [UInt32.toNat_sub_of_le _ _ hle, hmask]
  omega

theorem popcHalves_toNat (a : UInt32) :
    ((a &&& (0x33333333 : UInt32)) + ((a >>> 2) &&& (0x33333333 : UInt32))).toNat =
      bytewise popcHalves 4 a.toNat := by
  have hlow : (a &&& (0x33333333 : UInt32)).toNat = bytewise (fun b => b &&& 0x33) 4 a.toNat := by
    have h := shift_and_mask (s := 0) (m := 0x33) (by decide) (by decide) 4 a.toNat
    simp only [Nat.pow_zero, Nat.div_one] at h
    rw [UInt32.toNat_and]
    exact h
  have hhigh : ((a >>> 2) &&& (0x33333333 : UInt32)).toNat =
      bytewise (fun b => (b / 4) &&& 0x33) 4 a.toNat := by
    have hshift : (a >>> 2).toNat = a.toNat / 2 ^ 2 := toNat_shiftRight_of_lt a (by decide)
    rw [UInt32.toNat_and, hshift]
    exact shift_and_mask (s := 2) (m := 0x33) (by decide) (by decide) 4 a.toNat
  have hle : bytewise popcHalves 4 a.toNat ≤ mask 0x66 4 := by
    refine bytewise_le (fun b _ => ?_) 4 a.toNat
    have h₁ : b &&& 0x33 ≤ 0x33 := Nat.and_le_right
    have h₂ : (b / 4) &&& 0x33 ≤ 0x33 := Nat.and_le_right
    rw [popcHalves]
    omega
  have hmask : mask 0x66 4 = 0x66666666 := rfl
  rw [UInt32.toNat_add, hlow, hhigh, ← bytewise_add]
  exact Nat.mod_eq_of_lt (by rw [show (fun b => (b &&& 0x33) + ((b / 4) &&& 0x33)) = popcHalves from rfl]; omega)

/-- The last line of `lfs_popc`: the highest byte of the product is the sum. -/
theorem bytes_mul {p₀ p₁ p₂ p₃ : Nat} (h₀ : p₀ ≤ 8) (h₁ : p₁ ≤ 8) (h₂ : p₂ ≤ 8) (h₃ : p₃ ≤ 8) :
    (p₀ + 256 * (p₁ + 256 * (p₂ + 256 * (p₃ + 256 * 0)))) * 0x1010101 % 2 ^ 32 / 2 ^ 24 =
      p₀ + (p₁ + (p₂ + (p₃ + popcount 0))) := by
  have hsplit : (p₀ + 256 * (p₁ + 256 * (p₂ + 256 * (p₃ + 256 * 0)))) * 0x1010101 =
      2 ^ 32 * (p₁ + p₂ + p₃ + 256 * (p₂ + p₃) + 65536 * p₃) +
        (2 ^ 24 * (p₀ + p₁ + p₂ + p₃) + (p₀ + 256 * (p₀ + p₁) + 65536 * (p₀ + p₁ + p₂))) := by omega
  rw [hsplit, Nat.mul_add_mod, Nat.mod_eq_of_lt (by omega), Nat.mul_add_div (by decide),
    Nat.div_eq_of_lt (by omega), popcount_zero]
  omega

theorem lfsPopc_toNat (a : UInt32) : (lfsPopc a).toNat = popcount a.toNat := by
  have hpairs : ∀ b < 256, popcPairs b < 256 := fun b hb => Nat.lt_of_le_of_lt (Nat.sub_le _ _) hb
  have hspec := fun b hb => popcHalves_spec ⟨b, hb⟩
  rw [lfsPopc]
  generalize hc : a - ((a >>> 1) &&& (0x55555555 : UInt32)) = c
  generalize hd : (c &&& (0x33333333 : UInt32)) + ((c >>> 2) &&& (0x33333333 : UInt32)) = d
  have hdn : d.toNat = bytewise (fun b => popcHalves (popcPairs b)) 4 a.toNat := by
    rw [← hd, popcHalves_toNat, ← hc, popcPairs_toNat, bytewise_comp hpairs]
  have hle : d.toNat ≤ mask 0x77 4 := by
    rw [hdn]
    refine bytewise_le (fun b hb => ?_) 4 a.toNat
    have := hspec b hb
    simp only at this
    omega
  have hbyte : ∀ j, d.toNat / 256 ^ j % 16 ≤ 7 ∧ d.toNat / 256 ^ j % 256 / 16 ≤ 7 := fun j => by
    have h256 : ∀ b < 256, popcHalves (popcPairs b) < 256 := fun b hb => by
      have := hspec b hb
      simp only at this
      omega
    rcases bytewise_byte h256 4 a.toNat j with ⟨b, hb, hj⟩ | hj
    · have := hspec b hb
      simp only at this
      rw [hdn]
      omega
    · rw [hdn]
      omega
  have hsum : ((d + (d >>> 4)) &&& (0xf0f0f0f : UInt32)).toNat = bytewise popcount 4 a.toNat := by
    have hshift : (d >>> 4).toNat = d.toNat / 16 := toNat_shiftRight_of_lt d (k := 4) (by decide)
    have hmask : mask 0x77 4 = 0x77777777 := rfl
    rw [UInt32.toNat_and, UInt32.toNat_add, hshift, Nat.mod_eq_of_lt (by omega)]
    refine (halves_and_mask 4 hbyte).trans ?_
    rw [hdn, bytewise_comp (fun b hb => by have := hspec b hb; simp only at this; omega)]
    exact bytewise_congr (fun b hb => (hspec b hb).2.2) 4 a.toNat
  have hcount : ∀ n < 256, popcount n ≤ 8 := fun n hn => popcount_le (k := 8) hn
  have h₀ := hcount _ (Nat.mod_lt a.toNat (show 256 > 0 by decide))
  have h₁ := hcount _ (Nat.mod_lt (a.toNat / 256) (show 256 > 0 by decide))
  have h₂ := hcount _ (Nat.mod_lt (a.toNat / 256 / 256) (show 256 > 0 by decide))
  have h₃ := hcount _ (Nat.mod_lt (a.toNat / 256 / 256 / 256) (show 256 > 0 by decide))
  have hone : (0x1010101 : UInt32).toNat = 0x1010101 := rfl
  have htop : ∀ b : UInt32, (b >>> 24).toNat = b.toNat / 2 ^ 24 :=
    fun b => toNat_shiftRight_of_lt b (k := 24) (by decide)
  have hsplit : ∀ n, popcount n = popcount (n % 256) + popcount (n / 256) := fun n => by
    have hadd := popcount_add_mul (k := 8) (Nat.mod_lt n (show 256 > 0 by decide)) (n / 256)
    rwa [show 2 ^ 8 = 256 from rfl, Nat.mod_add_div] at hadd
  have ha := a.toNat_lt
  have hzero : a.toNat / 256 / 256 / 256 / 256 = 0 := by omega
  rw [htop, UInt32.toNat_mul, hsum, hone, hsplit a.toNat, hsplit (a.toNat / 256),
    hsplit (a.toNat / 256 / 256), hsplit (a.toNat / 256 / 256 / 256), hzero]
  exact bytes_mul h₀ h₁ h₂ h₃

end LfsTool
