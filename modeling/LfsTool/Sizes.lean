import LfsTool.Lfs
import LfsTool.LfsUtil

/-!
# LfsTool.Sizes

The sizes of a configuration that littlefs works with.

* `LfsInit`: the preconditions of `lfs_init`.
* `Workable`: these, and blocks of at most 2^30 bytes, so that no offset plus sizes passes 32 bits.
-/

namespace LfsTool

abbrev LFS_NAME_MAX : UInt32 := 255
abbrev LFS_FILE_MAX : UInt32 := 2147483647
abbrev LFS_ATTR_MAX : UInt32 := 1022
abbrev LFS_BLOCK_NULL : UInt32 := 0xffffffff

/-- The assertions of `lfs_init`, and that its division is one. The buffers are NULL, so the alignment
of `lookahead_buffer` holds. -/
structure LfsInit (c : LfsConfig) : Prop where
  readSize : c.readSize ≠ 0
  progSize : c.progSize ≠ 0
  cacheSize : c.cacheSize ≠ 0
  cacheRead : c.cacheSize % c.readSize = 0
  cacheProg : c.cacheSize % c.progSize = 0
  blockCache : c.blockSize % c.cacheSize = 0
  divisor : c.blockSize - 2 * 4 ≠ 0
  ctz : 4 * lfsNpw2 (LFS_BLOCK_NULL / (c.blockSize - 2 * 4)) ≤ c.blockSize
  blockCycles : c.blockCycles ≠ 0
  lookahead : c.lookaheadSize > 0
  lookaheadWords : c.lookaheadSize % 8 = 0
  nameMax : c.nameMax ≤ LFS_NAME_MAX
  fileMax : c.fileMax ≤ LFS_FILE_MAX
  attrMax : c.attrMax ≤ LFS_ATTR_MAX

structure Workable (c : LfsConfig) : Prop extends LfsInit c where
  small : c.blockSize.toNat ≤ 2 ^ 30

section Sizes

variable {c : LfsConfig}

theorem readSize_pos (hc : LfsInit c) : 0 < c.readSize.toNat := toNat_ne_zero.mp hc.readSize

theorem progSize_pos (hc : LfsInit c) : 0 < c.progSize.toNat := toNat_ne_zero.mp hc.progSize

theorem cacheSize_pos (hc : LfsInit c) : 0 < c.cacheSize.toNat := toNat_ne_zero.mp hc.cacheSize

theorem progSize_dvd_cacheSize (hc : LfsInit c) : c.progSize.toNat ∣ c.cacheSize.toNat :=
  Nat.dvd_of_mod_eq_zero (mod_eq_zero.mp hc.cacheProg)

theorem cacheSize_dvd_blockSize (hc : LfsInit c) : c.cacheSize.toNat ∣ c.blockSize.toNat :=
  Nat.dvd_of_mod_eq_zero (mod_eq_zero.mp hc.blockCache)

theorem progSize_dvd_blockSize (hc : LfsInit c) : c.progSize.toNat ∣ c.blockSize.toNat :=
  Nat.dvd_trans (progSize_dvd_cacheSize hc) (cacheSize_dvd_blockSize hc)

/-- The pointers of a block take room. -/
theorem four_le_blockSize (hc : LfsInit c) : 4 ≤ c.blockSize.toNat := by
  have hnpw2 := lfsNpw2_toNat (LFS_BLOCK_NULL / (c.blockSize - 2 * 4))
  have hlog : Nat.log2 (LFS_BLOCK_NULL / (c.blockSize - 2 * 4) - 1).toNat < 32 := by
    rcases Nat.eq_zero_or_pos (LFS_BLOCK_NULL / (c.blockSize - 2 * 4) - 1).toNat with hz | hpos
    · rw [hz]
      decide
    · exact (Nat.log2_lt (by omega)).mpr (UInt32.toNat_lt _)
  have hctz := UInt32.le_iff_toNat_le.mp hc.ctz
  have hfour : (4 : UInt32).toNat = 4 := rfl
  rw [UInt32.toNat_mul, hfour, hnpw2] at hctz
  omega

theorem blockSize_pos (hc : LfsInit c) : 0 < c.blockSize.toNat :=
  Nat.lt_of_lt_of_le (by decide) (four_le_blockSize hc)

theorem readSize_le_cacheSize (hc : LfsInit c) : c.readSize.toNat ≤ c.cacheSize.toNat :=
  Nat.le_of_dvd (cacheSize_pos hc) (Nat.dvd_of_mod_eq_zero (mod_eq_zero.mp hc.cacheRead))

theorem progSize_le_cacheSize (hc : LfsInit c) : c.progSize.toNat ≤ c.cacheSize.toNat :=
  Nat.le_of_dvd (cacheSize_pos hc) (progSize_dvd_cacheSize hc)

theorem cacheSize_le_blockSize (hc : LfsInit c) : c.cacheSize.toNat ≤ c.blockSize.toNat :=
  Nat.le_of_dvd (blockSize_pos hc) (cacheSize_dvd_blockSize hc)

/-- Sums of offsets in a block are as they should be. -/
theorem Workable.add32_eq (hc : Workable c) {a b : Nat} (h : a + b ≤ c.blockSize.toNat) :
    add32 a b = a + b := by
  have hsmall := hc.small
  exact LfsTool.add32_eq (show a + b < 2 ^ 32 by omega)

end Sizes

end LfsTool
