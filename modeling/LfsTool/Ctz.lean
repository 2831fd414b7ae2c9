import LfsTool.Caches
import LfsTool.Lib.SkipList

/-!
# LfsTool.Ctz

The block lists littlefs keeps files in: block `i` begins with pointers to the blocks `i - 2 ^ k`, for
every `k` up to the number of zeros `i` ends in (`SkipList`).

* `lfsCtzIndex`, `lfsCtzFind`, `lfsCtzTraverse`, over a reader of the device.
* `Locates`: the block of a position, and where in the block it is. `ctzLimit`: up to where
  `lfs_ctz_index` computes them. `lfsCtzIndex_iff`: it does so up to there and no further.
* `CtzFile`: blocks of the device hold a file. `lfsCtzFind_byte`: a byte is found with at most 52 pointers.
* `lfsCtzTraverse_visits`: every block is visited once.
-/

namespace LfsTool

open BitCount SkipList BlockArray

/-! ## Index -/

/-- The index of the block, and what `*off` becomes. -/
def lfsCtzIndex (c : LfsConfig) (off : UInt32) : UInt32 × UInt32 :=
  let size := off
  let b := c.blockSize - 2 * 4
  let i := size / b
  if i = 0 then (0, off)
  else
    let i := (size - 4 * (lfsPopc (i - 1) + 2)) / b
    (i, size - b * i - 4 * lfsPopc i)

/-- Byte `pos` of a file is byte `off` of block `i` of its list. -/
structure Locates (blockSize pos i off : Nat) : Prop where
  off_eq : start 4 blockSize i + off = pos + header 4 i
  header_le : header 4 i ≤ off
  off_lt : off < blockSize

/-- Where `lfs_ctz_index` first goes wrong. -/
def ctzLimit (blockSize : Nat) : Nat := (blockSize - 8) * 2 ^ ((blockSize - 12) / 4)

section Index

variable {c : LfsConfig} {pos : UInt32}

theorem Locates.index_unique {B pos i j off off' : Nat} (h : Locates B pos i off)
    (h' : Locates B pos j off') : i = j ∧ off = off' := by
  obtain ⟨heq, hle, hlt⟩ := h
  obtain ⟨heq', hle', hlt'⟩ := h'
  have hij : i = j := by
    have hstart : pos < start 4 B (i + 1) := by
      rw [start]
      omega
    have hstart' : pos < start 4 B (j + 1) := by
      rw [start]
      omega
    exact SkipList.index_unique (by omega) hstart (by omega) hstart'
  subst hij
  exact ⟨rfl, by omega⟩

theorem header_le {B i : Nat} (hB : 104 ≤ B) (hi : i < 2 ^ 26) : header 4 i ≤ B := by
  cases i with
  | zero => exact Nat.zero_le _
  | succ i =>
    have htrail : trailing (i + 1) < 26 := by
      have hpow := Nat.lt_of_le_of_lt (two_pow_trailing_le (Nat.succ_ne_zero i)) hi
      exact (Nat.pow_lt_pow_iff_right (by decide)).mp hpow
    rw [header]
    omega

theorem start_succ_eq {B i : Nat} (hB : 104 ≤ B) (hi : i < 2 ^ 26) :
    start 4 B (i + 1) = (B - 8) * (i + 1) + 8 + 4 * popcount i := by
  have hclosed : start 4 B (i + 1) + 2 * 4 * i = B * (i + 1) + 4 * popcount i :=
    start_closed fun j hj => header_le hB (Nat.lt_of_le_of_lt hj hi)
  have hmul : B * (i + 1) = (B - 8) * (i + 1) + 8 * (i + 1) := by
    rw [← Nat.add_mul, Nat.sub_add_cancel (by omega)]
  omega

theorem exists_start_le {B k pos : Nat} (h : pos < start 4 B k) :
    ∃ i < k, start 4 B i ≤ pos ∧ pos < start 4 B (i + 1) := by
  induction k with
  | zero => exact absurd h (Nat.not_lt_zero _)
  | succ k ih =>
    by_cases hk : pos < start 4 B k
    · obtain ⟨i, hi, hpos⟩ := ih hk
      exact ⟨i, Nat.lt_succ_of_lt hi, hpos⟩
    · exact ⟨k, Nat.lt_succ_self k, Nat.le_of_not_lt hk, h⟩

theorem exists_locates {B pos : Nat} (hB : 104 ≤ B) (hpos : pos < 2 ^ 32) :
    ∃ i < 2 ^ 26, Locates B pos i (pos - start 4 B i + header 4 i) := by
  have hend := start_succ_eq hB (show 2 ^ 26 - 1 < 2 ^ 26 by decide)
  have hmul : 96 * 2 ^ 26 ≤ (B - 8) * (2 ^ 26 - 1 + 1) := Nat.mul_le_mul (by omega) (by decide)
  obtain ⟨i, hi, hle, hlt⟩ := exists_start_le
    (show pos < start 4 B (2 ^ 26 - 1 + 1) by omega)
  refine ⟨i, hi, by omega, Nat.le_add_left _ _, ?_⟩
  rw [start] at hlt
  omega

theorem divisor_toNat (hB : 104 ≤ c.blockSize.toNat) :
    (c.blockSize - 2 * 4).toNat = c.blockSize.toNat - 8 :=
  UInt32.toNat_sub_of_le _ _ (UInt32.le_iff_toNat_le.mpr (Nat.le_trans (by decide) hB))

theorem popcount_lt {n : Nat} (h : n < 2 ^ 26) : popcount n ≤ 26 := popcount_le h

theorem index_lt {B pos : Nat} (hB : 104 ≤ B) (hpos : pos < 2 ^ 32) : pos / (B - 8) < 2 ^ 26 := by
  rw [Nat.div_lt_iff_lt_mul (by omega)]
  exact Nat.lt_of_lt_of_le hpos (Nat.le_trans (by decide) (Nat.mul_le_mul_left _ (show 96 ≤ B - 8 by omega)))

/-- The words of `lfs_ctz_index` as numbers: nothing overflows. -/
theorem lfsCtzIndex_toNat (hB : 104 ≤ c.blockSize.toNat) (hpos : c.blockSize.toNat - 8 ≤ pos.toNat)
    {i : Nat} (hi : i = (pos.toNat - 4 * (popcount (pos.toNat / (c.blockSize.toNat - 8) - 1) + 2)) /
      (c.blockSize.toNat - 8))
    (hle : (c.blockSize.toNat - 8) * i + 4 * popcount i ≤ pos.toNat) :
    (lfsCtzIndex c pos).1.toNat = i ∧
      (lfsCtzIndex c pos).2.toNat = pos.toNat - (c.blockSize.toNat - 8) * i - 4 * popcount i := by
  have hb := divisor_toNat hB
  have hlt := pos.toNat_lt
  have hindex := index_lt hB hlt
  have hdiv : (pos / (c.blockSize - 2 * 4)).toNat = pos.toNat / (c.blockSize.toNat - 8) := by
    rw [UInt32.toNat_div, hb]
  have hone : 1 ≤ pos.toNat / (c.blockSize.toNat - 8) := by
    rw [Nat.le_div_iff_mul_le (by omega)]
    omega
  have hne : pos / (c.blockSize - 2 * 4) ≠ 0 := toNat_ne_zero.mpr (by rw [hdiv]; exact hone)
  have hpred : (pos / (c.blockSize - 2 * 4) - 1).toNat = pos.toNat / (c.blockSize.toNat - 8) - 1 := by
    rw [UInt32.toNat_sub_of_le _ _ (UInt32.le_iff_toNat_le.mpr (by rw [hdiv]; exact hone)), hdiv]
    rfl
  have hsub : (4 * (lfsPopc (pos / (c.blockSize - 2 * 4) - 1) + 2)).toNat =
      4 * (popcount (pos.toNat / (c.blockSize.toNat - 8) - 1) + 2) := by
    have := popcount_lt (show pos.toNat / (c.blockSize.toNat - 8) - 1 < 2 ^ 26 by omega)
    rw [UInt32.toNat_mul, UInt32.toNat_add, lfsPopc_toNat, hpred]
    show 4 * ((_ + 2) % 2 ^ 32) % 2 ^ 32 = _
    rw [Nat.mod_eq_of_lt (by omega), Nat.mod_eq_of_lt (by omega)]
  have hfit : 4 * (popcount (pos.toNat / (c.blockSize.toNat - 8) - 1) + 2) ≤ pos.toNat := by
    have hpop := popcount_lt (show pos.toNat / (c.blockSize.toNat - 8) - 1 < 2 ^ 26 by omega)
    by_cases htwo : pos.toNat / (c.blockSize.toNat - 8) = 1
    · rw [htwo, Nat.sub_self, popcount_zero]
      omega
    · have : 2 * (c.blockSize.toNat - 8) ≤ pos.toNat :=
        Nat.le_trans (Nat.mul_le_mul_right _ (by omega)) (Nat.div_mul_le_self pos.toNat _)
      omega
  have hi' : ((pos - 4 * (lfsPopc (pos / (c.blockSize - 2 * 4) - 1) + 2)) /
      (c.blockSize - 2 * 4)).toNat = i := by
    rw [UInt32.toNat_div, UInt32.toNat_sub_of_le _ _ (UInt32.le_iff_toNat_le.mpr (hsub ▸ hfit)), hsub,
      hb, hi]
  have hpop : 4 * popcount i < 2 ^ 32 := by omega
  have hmul : (c.blockSize.toNat - 8) * i < 2 ^ 32 := by omega
  rw [lfsCtzIndex, if_neg hne]
  refine ⟨hi', ?_⟩
  have hprod : ((c.blockSize - 2 * 4) * ((pos - 4 * (lfsPopc (pos / (c.blockSize - 2 * 4) - 1) + 2)) /
      (c.blockSize - 2 * 4))).toNat = (c.blockSize.toNat - 8) * i := by
    rw [UInt32.toNat_mul, hi', hb, Nat.mod_eq_of_lt hmul]
  have hcount : (4 * lfsPopc ((pos - 4 * (lfsPopc (pos / (c.blockSize - 2 * 4) - 1) + 2)) /
      (c.blockSize - 2 * 4))).toNat = 4 * popcount i := by
    rw [UInt32.toNat_mul, lfsPopc_toNat, hi']
    exact Nat.mod_eq_of_lt hpop
  rw [UInt32.toNat_sub_of_le, UInt32.toNat_sub_of_le, hprod, hcount]
  · rw [UInt32.le_iff_toNat_le, hprod]
    omega
  · rw [UInt32.le_iff_toNat_le, UInt32.toNat_sub_of_le, hprod, hcount]
    · omega
    · rw [UInt32.le_iff_toNat_le, hprod]
      omega

/-- The position of a block after the first, as `lfs_ctz_index` has it. -/
theorem Locates.offset_eq {B pos i off : Nat} (hB : 104 ≤ B) (hi : i < 2 ^ 26) (hne : i ≠ 0)
    (h : Locates B pos i off) : off + (B - 8) * i + 4 * popcount i = pos := by
  obtain ⟨i, rfl⟩ := Nat.exists_eq_succ_of_ne_zero hne
  have hstart := start_succ_eq hB (Nat.lt_of_succ_lt hi)
  have hcarry := popcount_succ i
  have heq := h.off_eq
  simp only [header, Nat.succ_eq_add_one] at heq hstart hcarry ⊢
  omega

theorem popcount_two_pow_sub_one (k : Nat) : popcount (2 ^ k - 1) = k := by
  have hpos := Nat.two_pow_pos k
  have hcarry := popcount_succ (2 ^ k - 1)
  rw [Nat.sub_add_cancel hpos] at hcarry
  have hone : popcount (2 ^ k) = 1 := by
    simpa using popcount_add_mul (k := k) (r := 0) hpos 1
  have htrail : trailing (2 ^ k) = k := by simpa using trailing_odd k 0
  omega

theorem popcount_lt_of_lt {k n : Nat} (h : n < 2 ^ k - 1) : popcount n < k := by
  induction k generalizing n with
  | zero => exact absurd h (Nat.not_lt_zero _)
  | succ k ih =>
    rw [Nat.pow_succ] at h
    rw [popcount_eq]
    by_cases hhalf : n / 2 < 2 ^ k - 1
    · have := ih hhalf
      omega
    · have hle := popcount_le (show n / 2 < 2 ^ k by omega)
      omega

theorem lfsCtzIndex_first (hB : 104 ≤ c.blockSize.toNat) (hpos : pos.toNat < c.blockSize.toNat - 8) :
    lfsCtzIndex c pos = (0, pos) := by
  refine if_pos ?_
  rw [← UInt32.toNat_inj, UInt32.toNat_div, divisor_toNat hB]
  exact Nat.div_eq_of_lt hpos

theorem lfsCtzIndex_spec (hB : 104 ≤ c.blockSize.toNat) (hpos : pos.toNat < ctzLimit c.blockSize.toNat) :
    Locates c.blockSize.toNat pos.toNat (lfsCtzIndex c pos).1.toNat (lfsCtzIndex c pos).2.toNat := by
  obtain ⟨n, hn, hloc⟩ := exists_locates hB pos.toNat_lt
  generalize hoff : pos.toNat - start 4 c.blockSize.toNat n + header 4 n = off at hloc
  by_cases hfirst : pos.toNat < c.blockSize.toNat - 8
  · rw [lfsCtzIndex_first hB hfirst]
    exact ⟨by simp [start, header], Nat.zero_le _, show pos.toNat < _ by omega⟩
  · have hend : pos.toNat < (c.blockSize.toNat - 8) * (n + 1) + 8 + 4 * popcount n := by
      rw [← start_succ_eq hB hn, start]
      have := hloc.off_eq
      have := hloc.off_lt
      omega
    have hin : (c.blockSize.toNat - 8) * n + 4 * popcount n + off = pos.toNat := by
      by_cases hz : n = 0
      · subst hz
        have hzero := hloc.off_eq
        simp only [start, header, Nat.zero_add, Nat.add_zero] at hzero
        rw [hzero, popcount_zero]
        omega
      · have := hloc.offset_eq hB hn hz
        omega
    -- where the first quotient is too large by one, the correction is not larger than a block
    have hcases : pos.toNat / (c.blockSize.toNat - 8) = n ∨
        pos.toNat / (c.blockSize.toNat - 8) = n + 1 ∧ 8 + 4 * popcount n ≤ c.blockSize.toNat - 8 := by
      by_cases hover : (c.blockSize.toNat - 8) * (n + 1) ≤ pos.toNat
      · have hpow : n + 1 < 2 ^ ((c.blockSize.toNat - 12) / 4) :=
          Nat.lt_of_mul_lt_mul_left (Nat.lt_of_le_of_lt hover hpos)
        have hpop := popcount_lt_of_lt (Nat.lt_sub_of_add_lt hpow)
        refine .inr ⟨Nat.div_eq_of_lt_le (by rw [Nat.mul_comm]; exact hover) ?_, by omega⟩
        rw [Nat.mul_comm, Nat.mul_add _ (n + 1)]
        omega
      · refine .inl (Nat.div_eq_of_lt_le ?_ (by rw [Nat.mul_comm]; omega))
        rw [Nat.mul_comm]
        omega
    have hindex : n = (pos.toNat - 4 * (popcount (pos.toNat / (c.blockSize.toNat - 8) - 1) + 2)) /
        (c.blockSize.toNat - 8) := by
      symm
      rcases hcases with heq | ⟨heq, hle⟩
      · have hne : n ≠ 0 := by
          rintro rfl
          have := (Nat.div_eq_zero_iff).mp heq
          omega
        obtain ⟨m, rfl⟩ : ∃ m, n = m + 1 := ⟨n - 1, by omega⟩
        have hstart := start_succ_eq hB (Nat.lt_of_succ_lt hn)
        have hge := hloc.off_eq
        have hheader := hloc.header_le
        have hlt : pos.toNat < (m + 1 + 1) * (c.blockSize.toNat - 8) := by
          rw [← heq, Nat.mul_comm]
          exact Nat.lt_mul_div_succ _ (by omega)
        rw [heq, Nat.add_sub_cancel]
        refine Nat.div_eq_of_lt_le ?_ (by omega)
        rw [Nat.mul_comm]
        omega
      · rw [heq, Nat.add_sub_cancel]
        have hover : (c.blockSize.toNat - 8) * (n + 1) ≤ pos.toNat := by
          rw [← heq, Nat.mul_comm]
          exact Nat.div_mul_le_self _ _
        rw [Nat.mul_succ] at hover hend
        refine Nat.div_eq_of_lt_le ?_ ?_
        · rw [Nat.mul_comm]
          omega
        · rw [Nat.succ_mul n, Nat.mul_comm n]
          omega
    obtain ⟨h₁, h₂⟩ := lfsCtzIndex_toNat hB (Nat.le_of_not_lt hfirst) hindex (by omega)
    have hleft : pos.toNat - (c.blockSize.toNat - 8) * n - 4 * popcount n = off := by omega
    rw [h₁, h₂, hleft]
    exact hloc

/-- The limit itself is put into a block before its own, past the end of that. -/
theorem lfsCtzIndex_limit (hB : 104 ≤ c.blockSize.toNat) (hpos : pos.toNat = ctzLimit c.blockSize.toNat) :
    c.blockSize.toNat ≤ (lfsCtzIndex c pos).2.toNat := by
  obtain ⟨k, hk⟩ : ∃ k, k = (c.blockSize.toNat - 12) / 4 := ⟨_, rfl⟩
  rw [ctzLimit, ← hk] at hpos
  obtain ⟨m, hm⟩ : ∃ m, 2 ^ k = m + 2 := by
    have : 2 ^ 1 ≤ 2 ^ k := Nat.pow_le_pow_right (by decide) (by omega)
    exact ⟨2 ^ k - 2, by omega⟩
  have hone : popcount (m + 1) = k := by
    rw [show m + 1 = 2 ^ k - 1 by omega]
    exact popcount_two_pow_sub_one k
  have hzero : popcount m + 1 = k := by
    have heven : m % 2 = 0 := by
      have : 2 ^ k % 2 = 0 := by
        rw [show k = k - 1 + 1 by omega, Nat.pow_succ]
        exact Nat.mul_mod_left _ _
      omega
    rw [← hone, popcount_eq m, popcount_eq (m + 1), show (m + 1) / 2 = m / 2 by omega]
    omega
  have hsplit : pos.toNat = (c.blockSize.toNat - 8) * m + 2 * (c.blockSize.toNat - 8) := by
    rw [hpos, hm, Nat.mul_add, Nat.mul_comm _ 2]
  have hdiv : pos.toNat / (c.blockSize.toNat - 8) = m + 2 := by
    rw [hpos, hm]
    exact Nat.mul_div_cancel_left _ (by omega)
  have hindex : m = (pos.toNat - 4 * (popcount (pos.toNat / (c.blockSize.toNat - 8) - 1) + 2)) /
      (c.blockSize.toNat - 8) := by
    symm
    rw [hdiv, show m + 2 - 1 = m + 1 by omega, hone]
    refine Nat.div_eq_of_lt_le ?_ ?_
    · rw [Nat.mul_comm]
      omega
    · rw [Nat.succ_mul m, Nat.mul_comm m]
      omega
  obtain ⟨-, h₂⟩ := lfsCtzIndex_toNat hB (by omega) hindex (by omega)
  omega

/-- How far the formula is right, for every block size `lfs_init` takes from 104 on. Files have fewer
than 2^31 bytes, so it is not for the blocks below 112 bytes. -/
theorem lfsCtzIndex_iff (c : LfsConfig) (hB : 104 ≤ c.blockSize.toNat) (last : UInt32) :
    (∀ pos ≤ last, Locates c.blockSize.toNat pos.toNat (lfsCtzIndex c pos).1.toNat
        (lfsCtzIndex c pos).2.toNat) ↔
      last.toNat < ctzLimit c.blockSize.toNat := by
  constructor
  · intro h
    by_contra hlimit
    have hlast := last.toNat_lt
    have hnat : (UInt32.ofNat (ctzLimit c.blockSize.toNat)).toNat = ctzLimit c.blockSize.toNat :=
      UInt32.toNat_ofNat_of_lt' (by rw [UInt32.size]; omega)
    have hloc := h (UInt32.ofNat (ctzLimit c.blockSize.toNat))
      (UInt32.le_iff_toNat_le.mpr (by omega))
    have := lfsCtzIndex_limit hB hnat
    have := hloc.off_lt
    omega
  · intro h pos hpos
    exact lfsCtzIndex_spec hB (Nat.lt_of_le_of_lt (UInt32.le_iff_toNat_le.mp hpos) h)

theorem not_lfsCtzIndex_smallest :
    ¬∀ pos ≤ LFS_FILE_MAX, Locates 104 pos.toNat
      (lfsCtzIndex { mLfsConfig with blockSize := 104 } pos).1.toNat
      (lfsCtzIndex { mLfsConfig with blockSize := 104 } pos).2.toNat := fun h =>
  absurd ((lfsCtzIndex_iff { mLfsConfig with blockSize := 104 } (by decide) LFS_FILE_MAX).mp h)
    (by decide)

end Index

/-! ## Reading -/

section Read

variable (c : LfsConfig) (rd : BdRead)

/-- The loop of `lfs_ctz_find`; `none` where an assertion stops it. -/
def ctzFindLoop (target : UInt32) : Nat → UInt32 → UInt32 → Option (Except Int UInt32)
  | fuel, current, head =>
    if current > target then
      match fuel with
      | 0 => none
      | fuel + 1 =>
        let skip := lfsMin (lfsNpw2 (current - target + 1) - 1) (lfsCtz current)
        match rd 4 head (4 * skip).toNat 4 with
        | none => none
        | some (.error err) => some (.error err)
        | some (.ok data) =>
          let head := lfsFromle32 data
          if head ≥ 2 ∧ head ≤ c.blockCount then
            ctzFindLoop target fuel (current - 1 <<< skip) head
          else none
    else some (.ok head)

def lfsCtzFind (fuel : Nat) (head size pos : UInt32) : Option (Except Int (UInt32 × UInt32)) :=
  if size = 0 then some (.ok (LFS_BLOCK_NULL, 0))
  else
    let current := (lfsCtzIndex c (size - 1)).1
    let (target, pos) := lfsCtzIndex c pos
    (ctzFindLoop c rd target fuel current head).map fun r => r.map fun head => (head, pos)

variable {τ : Type} (cb : UInt32 → τ → Int × τ)

/-- The loop of `lfs_ctz_traverse`. The second pointer is only there with two of them. -/
def ctzTraverseLoop : Nat → UInt32 → UInt32 → τ → Option (Int × τ)
  | fuel, index, head, t =>
    let (err, t) := cb head t
    if err ≠ 0 then some (err, t)
    else if index = 0 then some (0, t)
    else
      match fuel with
      | 0 => none
      | fuel + 1 =>
        let count := 2 - (index &&& 1)
        match rd (count * 4).toNat head 0 (count * 4).toNat with
        | none => none
        | some (.error err) => some (err, t)
        | some (.ok data) =>
          if count = 2 then
            let (err, t) := cb (lfsFromle32 (data.take 4)) t
            if err ≠ 0 then some (err, t)
            else ctzTraverseLoop fuel (index - count) (lfsFromle32 (data.drop 4)) t
          else ctzTraverseLoop fuel (index - count) (lfsFromle32 (data.take 4)) t

def lfsCtzTraverse (fuel : Nat) (head size : UInt32) (t : τ) : Option (Int × τ) :=
  if size = 0 then some (0, t)
  else ctzTraverseLoop rd cb fuel (lfsCtzIndex c (size - 1)).1 head t

/-- A callback on one block after the other, up to the first error. -/
def visit : List UInt32 → τ → Int × τ
  | [], t => (0, t)
  | block :: blocks, t =>
    let (err, t) := cb block t
    if err ≠ 0 then (err, t) else visit blocks t

end Read

/-! ## Files on the device -/

/-- Blocks `addr 0` to `addr (n - 1)` are a list. -/
structure CtzList (c : LfsConfig) (dev : Device UInt8) (addr : Nat → UInt32) (n : Nat) : Prop where
  le : n ≤ 2 ^ 26
  ge : ∀ i < n, 2 ≤ addr i
  lt : ∀ i < n, addr i < c.blockCount
  pointer : ∀ i < n, i ≠ 0 → ∀ k ≤ trailing i,
    dev.read (addr i).toNat (4 * k) 4 = le32 (addr (i - 2 ^ k))

/-- The list holds `content`, not longer than `ctzLimit`, and its last block has the end of it. -/
structure CtzFile (c : LfsConfig) (dev : Device UInt8) (addr : Nat → UInt32) (n : Nat)
    (content : List UInt8) : Prop extends CtzList c dev addr n where
  limit : content.length ≤ ctzLimit c.blockSize.toNat
  size : content.length < 2 ^ 32
  empty : content = [] → n = 0
  last : content ≠ [] → ∃ last off, n = last + 1 ∧
    Locates c.blockSize.toNat (content.length - 1) last off
  byte : ∀ pos (h : pos < content.length) i off, Locates c.blockSize.toNat pos i off →
    dev (addr i).toNat off = content[pos]

section Read

variable {c : LfsConfig} {dev : Device UInt8} {addr : Nat → UInt32} {n : Nat} {content : List UInt8}

def pointerAt (dev : Device UInt8) (block : UInt32) (k : Nat) : UInt32 :=
  lfsFromle32 (dev.read block.toNat (4 * k) 4)

theorem CtzList.linked (h : CtzList c dev addr n) : Linked (pointerAt dev) addr n := by
  intro i hi hne k hk
  rw [pointerAt, h.pointer i hi hne k hk, lfsFromle32_le32]

theorem trailing_lt {i : Nat} (hne : i ≠ 0) (hi : i < 2 ^ 26) : trailing i < 26 :=
  (Nat.pow_lt_pow_iff_right (by decide)).mp (Nat.lt_of_le_of_lt (two_pow_trailing_le hne) hi)

/-- The skip of `lfs_ctz_find` is the hop of the list. -/
theorem skip_toNat {target cur : UInt32} (h : target < cur) :
    (lfsMin (lfsNpw2 (cur - target + 1) - 1) (lfsCtz cur)).toNat = hop target.toNat cur.toNat := by
  have hlt := UInt32.lt_iff_toNat_lt.mp h
  have hne : cur ≠ 0 := toNat_ne_zero.mpr (by omega)
  have hnpw2 := lfsNpw2_toNat (cur - target + 1)
  rw [UInt32.add_sub_cancel, UInt32.toNat_sub_of_le _ _ (UInt32.le_of_lt h)] at hnpw2
  rw [lfsMin_toNat, lfsCtz_toNat hne, UInt32.toNat_sub_of_le, hnpw2]
  · rfl
  · rw [UInt32.le_iff_toNat_le, hnpw2]
    exact Nat.le_add_left _ _

theorem ctzFindLoop_eq (hc : Workable c) (h : CtzList c dev addr n) (hB : 104 ≤ c.blockSize.toNat)
    (target : UInt32)
    {fuel : Nat} {cur : UInt32} (hcur : cur.toNat < n) :
    ctzFindLoop c (deviceRead c dev) target fuel cur (addr cur.toNat) =
      (walk (pointerAt dev) target.toNat fuel cur.toNat (addr cur.toNat)).map .ok := by
  induction fuel generalizing cur with
  | zero =>
    rw [ctzFindLoop, walk]
    by_cases hgt : target < cur
    · rw [if_pos hgt, if_neg (Nat.not_le_of_lt (UInt32.lt_iff_toNat_lt.mp hgt))]
      rfl
    · rw [if_neg hgt, if_pos (Nat.le_of_not_lt fun hlt => hgt (UInt32.lt_iff_toNat_lt.mpr hlt))]
      rfl
  | succ fuel ih =>
    rw [ctzFindLoop, walk]
    by_cases hgt : target < cur
    · have hlt := UInt32.lt_iff_toNat_lt.mp hgt
      have hn := h.le
      have hskip := skip_toNat hgt
      have hhop : hop target.toNat cur.toNat ≤ trailing cur.toNat := Nat.min_le_right _ _
      have htrail := trailing_lt (show cur.toNat ≠ 0 by omega) (by omega)
      have hpow := two_pow_hop_le hlt
      rw [if_pos hgt, if_neg (Nat.not_le_of_lt hlt)]
      generalize lfsMin (lfsNpw2 (cur - target + 1) - 1) (lfsCtz cur) = skip at hskip
      have hoff : (4 * skip).toNat = 4 * hop target.toNat cur.toNat := by
        rw [UInt32.toNat_mul, hskip]
        exact Nat.mod_eq_of_lt (by show 4 * _ < _; omega)
      have hshift : (cur - 1 <<< skip).toNat = cur.toNat - 2 ^ hop target.toNat cur.toNat := by
        have hone : ((1 : UInt32) <<< skip).toNat = 2 ^ hop target.toNat cur.toNat := by
          rw [UInt32.toNat_shiftLeft, hskip, Nat.mod_eq_of_lt (show _ < 32 by omega), Nat.shiftLeft_eq,
            UInt32.toNat_one, Nat.one_mul]
          exact Nat.mod_eq_of_lt (Nat.pow_lt_pow_right (by decide) (by omega))
        rw [UInt32.toNat_sub_of_le, hone]
        rw [UInt32.le_iff_toNat_le, hone]
        omega
      have hptr := h.linked cur.toNat hcur (by omega) _ hhop
      have hpos := Nat.two_pow_pos (hop target.toNat cur.toNat)
      have hread : deviceRead c dev 4 (addr cur.toNat) (4 * skip).toNat 4 =
          some (.ok (dev.read (addr cur.toNat).toNat (4 * hop target.toNat cur.toNat) 4)) := by
        rw [hoff]
        exact deviceRead_self hc (h.lt _ hcur) (by omega)
      have hrange : addr (cur.toNat - 2 ^ hop target.toNat cur.toNat) ≥ 2 ∧
          addr (cur.toNat - 2 ^ hop target.toNat cur.toNat) ≤ c.blockCount :=
        ⟨h.ge _ (by omega), UInt32.le_of_lt (h.lt _ (by omega))⟩
      rw [pointerAt] at hptr ⊢
      simp only [hread, hptr, if_pos hrange]
      rw [← hshift]
      exact ih (by omega)
    · rw [if_neg hgt, if_pos (Nat.le_of_not_lt fun hlt => hgt (UInt32.lt_iff_toNat_lt.mpr hlt))]
      rfl

theorem Locates.mono {B pos pos' i i' off off' : Nat} (h : Locates B pos i off)
    (h' : Locates B pos' i' off') (hle : pos ≤ pos') : i ≤ i' := by
  by_contra hlt
  have hstart : start 4 B (i' + 1) ≤ start 4 B i := start_mono (by omega)
  obtain ⟨heq, hge, hin⟩ := h
  obtain ⟨heq', hge', hin'⟩ := h'
  rw [start] at hstart
  omega

theorem CtzFile.size_toNat (h : CtzFile c dev addr n content) :
    content.length.toUInt32.toNat = content.length := UInt32.toNat_ofNat_of_lt' h.size

/-- The last block, as `lfs_ctz_index` finds it from the size. -/
theorem CtzFile.last_index (h : CtzFile c dev addr n content) (hB : 104 ≤ c.blockSize.toNat)
    (hne : content ≠ []) :
    content.length.toUInt32 ≠ 0 ∧ n ≠ 0 ∧
      (content.length.toUInt32 - 1).toNat = content.length - 1 ∧
      (lfsCtzIndex c (content.length.toUInt32 - 1)).1.toNat = n - 1 := by
  have hlen := List.length_pos_iff.mpr hne
  have hsize := h.size_toNat
  have hne' : content.length.toUInt32 ≠ 0 := toNat_ne_zero.mpr (by omega)
  have hpred : (content.length.toUInt32 - 1).toNat = content.length - 1 := by
    rw [UInt32.toNat_sub_of_le _ _ (UInt32.le_iff_toNat_le.mpr (by rw [hsize]; exact hlen)), hsize]
    rfl
  obtain ⟨last, off, rfl, hlast⟩ := h.last hne
  have hspec := @lfsCtzIndex_spec c (content.length.toUInt32 - 1) hB
    (by rw [hpred]; have := h.limit; omega)
  rw [hpred] at hspec
  exact ⟨hne', Nat.succ_ne_zero last, hpred, (hspec.index_unique hlast).1⟩

theorem CtzFile.find (hc : Workable c) (h : CtzFile c dev addr n content) (hB : 104 ≤ c.blockSize.toNat)
    {pos : UInt32} (hpos : pos.toNat < content.length) {fuel : Nat}
    (hfuel : popcount (n - 1) + (Nat.log2 (n - 1) + 1) ≤ fuel) :
    ∃ i off, lfsCtzFind c (deviceRead c dev) fuel (addr (n - 1)) content.length.toUInt32 pos =
        some (.ok (addr i, off)) ∧ i < n ∧ Locates c.blockSize.toNat pos.toNat i off.toNat := by
  have hne : content ≠ [] := List.ne_nil_of_length_pos (by omega)
  obtain ⟨hsize, hn, hpred, hindex⟩ := h.last_index hB hne
  have hlimit := h.limit
  have htarget := @lfsCtzIndex_spec c pos hB (by omega)
  have hend := @lfsCtzIndex_spec c (content.length.toUInt32 - 1) hB (by omega)
  rw [hpred, hindex] at hend
  have hle := htarget.mono hend (by omega)
  have hlog : Nat.log2 (n - 1 - (lfsCtzIndex c pos).1.toNat) ≤ Nat.log2 (n - 1) := by
    by_cases hz : n - 1 - (lfsCtzIndex c pos).1.toNat = 0
    · rw [hz]
      exact Nat.zero_le _
    · rw [Nat.le_log2 (by omega)]
      exact Nat.le_trans (Nat.log2_self_le hz) (Nat.sub_le _ _)
  have hcur : (lfsCtzIndex c (content.length.toUInt32 - 1)).1.toNat < n := by omega
  have hloop := @ctzFindLoop_eq _ _ _ _ hc h.toCtzList hB (lfsCtzIndex c pos).1 fuel _ hcur
  rw [hindex, walk_spec h.linked (by omega) hle (by omega)] at hloop
  refine ⟨(lfsCtzIndex c pos).1.toNat, (lfsCtzIndex c pos).2, ?_, by omega, htarget⟩
  rw [lfsCtzFind, if_neg hsize]
  simp only [hloop]
  rfl

theorem count_toNat (cur : UInt32) : (2 - (cur &&& 1)).toNat = 2 - cur.toNat % 2 := by
  have hand : (cur &&& 1).toNat = cur.toNat % 2 := by
    rw [UInt32.toNat_and]
    exact Nat.and_one_is_mod _
  rw [UInt32.toNat_sub_of_le, hand]
  · rfl
  · rw [UInt32.le_iff_toNat_le, hand]
    show _ ≤ 2
    omega

theorem lfsFromle32_take (block : UInt32) {k : Nat} (hk : 1 ≤ k) :
    lfsFromle32 ((dev.read block.toNat 0 (k * 4)).take 4) = pointerAt dev block 0 := by
  rw [Device.read_take _ (by omega)]
  rfl

theorem lfsFromle32_drop (block : UInt32) :
    lfsFromle32 ((dev.read block.toNat 0 (2 * 4)).drop 4) = pointerAt dev block 1 := by
  rw [Device.read_drop _ (by decide)]
  rfl

theorem ctzTraverseLoop_eq (hc : Workable c) (h : CtzList c dev addr n) (hB : 104 ≤ c.blockSize.toNat) {τ : Type}
    (cb : UInt32 → τ → Int × τ) {fuel : Nat} {cur : UInt32} (hcur : cur.toNat < n)
    (hfuel : cur.toNat ≤ fuel) (t : τ) :
    ctzTraverseLoop (deviceRead c dev) cb fuel cur (addr cur.toNat) t =
      some (visit cb (trace (pointerAt dev) cur.toNat (addr cur.toNat)) t) := by
  induction fuel generalizing cur t with
  | zero =>
    obtain rfl : cur = 0 := UInt32.toNat_inj.mp (by simpa using hfuel)
    rw [ctzTraverseLoop]
    simp only [if_true]
    rw [UInt32.toNat_zero, trace, visit]
    simp only [visit]
    split
    · rfl
    · rfl
  | succ fuel ih =>
    have hn := h.le
    have hcount := count_toNat cur
    rw [ctzTraverseLoop]
    by_cases hz : cur = 0
    · subst hz
      simp only [if_true]
      rw [UInt32.toNat_zero, trace, visit]
      simp only [visit]
      split
      · rfl
      · rfl
    · have hpos := toNat_ne_zero.mp hz
      generalize 2 - (cur &&& 1) = count at hcount
      have hbytes : (count * 4).toNat = count.toNat * 4 := by
        rw [UInt32.toNat_mul]
        exact Nat.mod_eq_of_lt (by rw [hcount]; show _ * 4 < _; omega)
      have hsub : (cur - count).toNat = cur.toNat - count.toNat :=
        UInt32.toNat_sub_of_le _ _ (by rw [UInt32.le_iff_toNat_le]; omega)
      have hread : deviceRead c dev (count.toNat * 4) (addr cur.toNat) 0 (count.toNat * 4) =
          some (.ok (dev.read (addr cur.toNat).toNat 0 (count.toNat * 4))) :=
        deviceRead_self hc (h.lt _ hcur) (by omega)
      rw [← hbytes] at hread
      have hfirst := h.linked cur.toNat hcur (by omega) 0 (Nat.zero_le _)
      by_cases hodd : cur.toNat % 2 = 1
      · obtain rfl : count = 1 := UInt32.toNat_inj.mp (by rw [hcount, hodd]; rfl)
        have hword : lfsFromle32 ((dev.read (addr cur.toNat).toNat 0 ((1 : UInt32) * 4).toNat).take 4) =
            addr (cur - 1).toNat := by
          rw [hsub]
          exact (lfsFromle32_take _ (Nat.le_refl 1)).trans hfirst
        have hone : ¬(1 : UInt32) = 2 := by decide
        rw [trace_odd hodd, visit]
        simp only [if_neg hz, hread, if_neg hone, hword, hfirst]
        split
        · rfl
        · rw [ih (by omega) (by omega), hsub]
          rfl
      · obtain rfl : count = 2 := UInt32.toNat_inj.mp (by rw [hcount]; show _ = 2; omega)
        have hsecond := h.linked cur.toNat hcur (by omega) 1
          (one_le_trailing (by omega) (by omega))
        have hword : lfsFromle32 ((dev.read (addr cur.toNat).toNat 0 ((2 : UInt32) * 4).toNat).take 4) =
            addr (cur.toNat - 1) := (lfsFromle32_take _ (Nat.le_succ 1)).trans hfirst
        have hword' : lfsFromle32 ((dev.read (addr cur.toNat).toNat 0 ((2 : UInt32) * 4).toNat).drop 4) =
            addr (cur - 2).toNat := by
          rw [hsub]
          exact (lfsFromle32_drop _).trans hsecond
        rw [trace_even (by omega) (by omega), visit]
        simp only [if_neg hz, hread, if_true, hword, hword', hfirst, hsecond]
        split
        · rfl
        · rw [visit]
          simp only [Nat.pow_zero]
          split
          · rfl
          · rw [ih (by omega) (by omega), hsub]
            rfl

/-- Every block is visited once, from the last one on. -/
theorem lfsCtzTraverse_visits (hc : Workable c) (h : CtzFile c dev addr n content)
    (hB : 104 ≤ c.blockSize.toNat) {τ : Type} (cb : UInt32 → τ → Int × τ) {fuel : Nat} (hfuel : n ≤ fuel) (t : τ) :
    lfsCtzTraverse c (deviceRead c dev) cb fuel (addr (n - 1)) content.length.toUInt32 t =
      some (visit cb ((List.range n).reverse.map addr) t) := by
  by_cases hne : content = []
  · rw [h.empty hne, hne]
    rfl
  · obtain ⟨hsize, hn, -, hindex⟩ := h.last_index hB hne
    rw [lfsCtzTraverse, if_neg hsize, ← hindex,
      ctzTraverseLoop_eq hc h.toCtzList hB cb (by omega) (by omega) t,
      trace_eq h.linked (by omega), hindex, Nat.sub_add_cancel (by omega)]

/-- A byte of a file of any size up to the limit is found with at most 52 pointers. -/
theorem lfsCtzFind_byte (hc : Workable c) (h : CtzFile c dev addr n content) (hB : 104 ≤ c.blockSize.toNat)
    {pos : UInt32} (hpos : pos.toNat < content.length) {fuel : Nat} (hfuel : 52 ≤ fuel) :
    ∃ block off, lfsCtzFind c (deviceRead c dev) fuel (addr (n - 1)) content.length.toUInt32 pos =
        some (.ok (block, off)) ∧ off < c.blockSize ∧ dev block.toNat off.toNat = content[pos.toNat] := by
  have hn : n - 1 < 2 ^ 26 := by
    have := h.le
    omega
  have hlog : Nat.log2 (n - 1) < 26 := by
    by_cases hz : n - 1 = 0
    · rw [hz]
      decide
    · exact (Nat.log2_lt hz).mpr hn
  have hpop := popcount_lt hn
  obtain ⟨i, off, hfind, -, hloc⟩ := h.find hc hB hpos (show _ ≤ fuel by omega)
  exact ⟨addr i, off, hfind, UInt32.lt_iff_toNat_lt.mpr hloc.off_lt, h.byte _ hpos i _ hloc⟩

end Read

/-! ## A file of two blocks -/

def twoBlocks : Device UInt8 := fun b o => if b = 3 ∧ o = 0 then 2 else 0

def twoAddr (i : Nat) : UInt32 := if i = 0 then 2 else 3

theorem header_one : header 4 1 = 4 := by
  rw [header, show trailing (0 + 1) = 0 from trailing_odd 0 0]

theorem twoBlocks_file : CtzFile eightBlocks twoBlocks twoAddr 2 (List.replicate 204 0) where
  le := by decide
  ge i hi := by
    obtain rfl | rfl : i = 0 ∨ i = 1 := by omega
    · decide
    · decide
  lt i hi := by
    obtain rfl | rfl : i = 0 ∨ i = 1 := by omega
    · decide
    · decide
  pointer i hi hne k hk := by
    obtain rfl : i = 1 := by omega
    rw [show trailing 1 = 0 from trailing_odd 0 0] at hk
    obtain rfl : k = 0 := by omega
    decide
  limit := by
    rw [List.length_replicate]
    decide
  size := by
    rw [List.length_replicate]
    decide
  empty h := by cases h
  last _ := by
    rw [List.length_replicate]
    exact ⟨1, 103, rfl, by rw [header_one]; rfl, by rw [header_one]; decide, by decide⟩
  byte pos hpos j o hloc := by
    rw [List.getElem_replicate, twoBlocks]
    refine if_neg ?_
    rintro ⟨hb, rfl⟩
    cases j with
    | zero => cases hb
    | succ j => exact absurd hloc.header_le (by rw [header]; omega)

theorem lfsCtzFind_twoBlocks :
    ∃ block off, lfsCtzFind eightBlocks (deviceRead eightBlocks twoBlocks) 52 3 204 150 =
        some (.ok (block, off)) ∧ off < 104 ∧ twoBlocks block.toNat off.toNat = 0 := by
  have hlen : (150 : UInt32).toNat < (List.replicate 204 (0 : UInt8)).length := by
    rw [List.length_replicate]
    decide
  have h := lfsCtzFind_byte eightBlocks_workable twoBlocks_file (by decide) hlen (Nat.le_refl 52)
  rwa [List.getElem_replicate, List.length_replicate] at h

theorem lfsCtzTraverse_twoBlocks :
    lfsCtzTraverse eightBlocks (deviceRead eightBlocks twoBlocks) (fun block l => (0, block :: l)) 2 3 204
      ([] : List UInt32) = some (visit (fun block l => (0, block :: l)) [3, 2] []) := by
  have h := lfsCtzTraverse_visits eightBlocks_workable twoBlocks_file (by decide) (fun block (l : List UInt32) => (0, block :: l))
    (Nat.le_refl 2) []
  rwa [List.length_replicate] at h

end LfsTool
