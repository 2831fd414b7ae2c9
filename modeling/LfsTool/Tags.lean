import LfsTool.LfsUtil

/-!
# LfsTool.Tags

The 32-bit tags of the metadata: one bit that says the tag is not valid, a type of 11 bits, an id of ten
and a size of ten.

* `mkTag` and the functions that take the fields apart, as in the source.
* `HasFields`, `IsTag`: the fields of a tag as numbers. Adding to a tag moves its id, as long as the id has
  room for it (`HasFields.add_id`, `HasFields.sub_id`).
* `mask_eq_iff`: when a mask does not tell two tags apart.
-/

namespace LfsTool

open BitCount

abbrev LFS_TYPE_NAME : UInt32 := 0x000
abbrev LFS_TYPE_STRUCT : UInt32 := 0x200
abbrev LFS_TYPE_USERATTR : UInt32 := 0x300
abbrev LFS_TYPE_SPLICE : UInt32 := 0x400
abbrev LFS_TYPE_CRC : UInt32 := 0x500
abbrev LFS_TYPE_TAIL : UInt32 := 0x600
abbrev LFS_TYPE_CREATE : UInt32 := 0x401
abbrev LFS_TYPE_DELETE : UInt32 := 0x4ff

/-- `LFS_MKTAG` -/
def mkTag (type id size : UInt32) : UInt32 := (type <<< 20) ||| (id <<< 10) ||| size

def lfsTagIsvalid (tag : UInt32) : Bool := tag &&& 0x80000000 == 0

def lfsTagIsdelete (tag : UInt32) : Bool := (tag <<< 22).toInt32 >>> 22 == -1

def lfsTagType1 (tag : UInt32) : UInt32 := (tag &&& 0x70000000) >>> 20

def lfsTagType3 (tag : UInt32) : UInt32 := (tag &&& 0x7ff00000) >>> 20

def lfsTagChunk (tag : UInt32) : UInt32 := (tag &&& 0x0ff00000) >>> 20

/-- The chunk as a signed number, extended to 32 bits. -/
def lfsTagSplice (tag : UInt32) : UInt32 :=
  if lfsTagChunk tag < 0x80 then lfsTagChunk tag else lfsTagChunk tag - 0x100

def lfsTagId (tag : UInt32) : UInt32 := (tag &&& 0x000ffc00) >>> 10

def lfsTagSize (tag : UInt32) : UInt32 := tag &&& 0x000003ff

def lfsTagDsize (tag : UInt32) : UInt32 := 4 + lfsTagSize (tag + if lfsTagIsdelete tag then 1 else 0)

/-! ## Fields -/

section Fields

variable {tag type id size : UInt32}

/-- A mask of `k` ones above `s` zeros. -/
theorem and_ones_toNat {a m : UInt32} {k s : Nat} (hm : m.toNat = (2 ^ k - 1) * 2 ^ s) :
    (a &&& m).toNat = a.toNat / 2 ^ s % 2 ^ k * 2 ^ s := by
  rw [UInt32.toNat_and, hm]
  apply Nat.eq_of_testBit_eq
  intro i
  rw [Nat.testBit_and, Nat.testBit_mul_two_pow, Nat.testBit_mul_two_pow, Nat.testBit_mod_two_pow,
    Nat.testBit_div_two_pow, Nat.testBit_two_pow_sub_one]
  by_cases hi : s ≤ i
  · simp [hi, Bool.and_comm]
  · simp [hi]

theorem field_toNat {a m : UInt32} {k s : Nat} (hs : s < 32) (hm : m.toNat = (2 ^ k - 1) * 2 ^ s) :
    ((a &&& m) >>> UInt32.ofNat s).toNat = a.toNat / 2 ^ s % 2 ^ k := by
  rw [UInt32.toNat_shiftRight, and_ones_toNat hm, UInt32.toNat_ofNat', Nat.mod_eq_of_lt (a := s) (by omega),
    Nat.mod_eq_of_lt hs, Nat.shiftRight_eq_div_pow, Nat.mul_div_cancel _ (Nat.two_pow_pos s)]

theorem lfsTagType1_toNat (tag : UInt32) : (lfsTagType1 tag).toNat = tag.toNat / 2 ^ 28 % 2 ^ 3 * 2 ^ 8 := by
  have hmask : (tag &&& 0x70000000).toNat = tag.toNat / 2 ^ 28 % 2 ^ 3 * 2 ^ 28 := and_ones_toNat rfl
  rw [lfsTagType1, UInt32.toNat_shiftRight, hmask]
  show _ >>> 20 = _
  rw [Nat.shiftRight_eq_div_pow]
  omega

theorem lfsTagType3_toNat (tag : UInt32) : (lfsTagType3 tag).toNat = tag.toNat / 2 ^ 20 % 2 ^ 11 :=
  field_toNat (s := 20) (by decide) rfl

theorem lfsTagChunk_toNat (tag : UInt32) : (lfsTagChunk tag).toNat = tag.toNat / 2 ^ 20 % 2 ^ 8 :=
  field_toNat (s := 20) (by decide) rfl

theorem lfsTagId_toNat (tag : UInt32) : (lfsTagId tag).toNat = tag.toNat / 2 ^ 10 % 2 ^ 10 :=
  field_toNat (s := 10) (by decide) rfl

theorem lfsTagSize_toNat (tag : UInt32) : (lfsTagSize tag).toNat = tag.toNat % 2 ^ 10 := by
  have hmask : (tag &&& 0x3ff).toNat = tag.toNat / 2 ^ 0 % 2 ^ 10 * 2 ^ 0 := and_ones_toNat rfl
  rw [lfsTagSize, hmask]
  omega

theorem lfsTagIsvalid_iff : lfsTagIsvalid tag = true ↔ tag.toNat < 2 ^ 31 := by
  have hmask : (tag &&& 0x80000000).toNat = tag.toNat / 2 ^ 31 % 2 ^ 1 * 2 ^ 31 := and_ones_toNat rfl
  have hlt := tag.toNat_lt
  rw [lfsTagIsvalid, beq_iff_eq, ← UInt32.toNat_inj, hmask]
  show _ = 0 ↔ _
  omega

theorem and_valid_toNat (a : UInt32) : (a &&& 0x7fffffff).toNat = a.toNat % 2 ^ 31 := by
  have hmask : (a &&& 0x7fffffff).toNat = a.toNat / 2 ^ 0 % 2 ^ 31 * 2 ^ 0 := and_ones_toNat rfl
  rw [hmask]
  omega

theorem isdelete_low : ∀ i : Fin 1024,
    (((UInt32.ofNat i) <<< 22).toInt32 >>> 22 == -1) = decide (i.val = 1023) := by
  decide +kernel

theorem lfsTagIsdelete_iff : lfsTagIsdelete tag = true ↔ tag.toNat % 2 ^ 10 = 1023 := by
  have hlt : tag.toNat % 2 ^ 10 < 1024 := Nat.mod_lt _ (by decide)
  have hshift : tag <<< 22 = UInt32.ofNat (tag.toNat % 2 ^ 10) <<< 22 := by
    rw [← UInt32.toNat_inj, UInt32.toNat_shiftLeft, UInt32.toNat_shiftLeft, UInt32.toNat_ofNat']
    show tag.toNat <<< 22 % _ = (_ % _) <<< 22 % _
    rw [Nat.shiftLeft_eq, Nat.shiftLeft_eq]
    omega
  have hlow := isdelete_low ⟨_, hlt⟩
  rw [lfsTagIsdelete, hshift, hlow, decide_eq_true_eq]

/-- The fields of a tag, valid or not. -/
structure HasFields (tag : UInt32) (type id size : Nat) : Prop where
  toNat_eq : tag.toNat % 2 ^ 31 = type * 2 ^ 20 + id * 2 ^ 10 + size
  type_lt : type < 2 ^ 11
  id_lt : id < 2 ^ 10
  size_lt : size < 2 ^ 10

end Fields

section HasFields

variable {tag tag' : UInt32} {type id size : Nat}

theorem hasFields (tag : UInt32) :
    HasFields tag (lfsTagType3 tag).toNat (lfsTagId tag).toNat (lfsTagSize tag).toNat := by
  constructor <;> simp only [lfsTagType3_toNat, lfsTagId_toNat, lfsTagSize_toNat] <;> omega

namespace HasFields

/-- The bit of validity is in no field. -/
theorem of_low (h : HasFields tag type id size) (hlow : tag' &&& 0x7fffffff = tag &&& 0x7fffffff) :
    HasFields tag' type id size := by
  refine ⟨?_, h.type_lt, h.id_lt, h.size_lt⟩
  rw [← h.toNat_eq, ← and_valid_toNat tag', hlow, and_valid_toNat]

theorem type3 (h : HasFields tag type id size) : (lfsTagType3 tag).toNat = type := by
  obtain ⟨heq, htype, hid, hsize⟩ := h
  rw [lfsTagType3_toNat]
  omega

theorem type1 (h : HasFields tag type id size) : (lfsTagType1 tag).toNat = type / 2 ^ 8 * 2 ^ 8 := by
  obtain ⟨heq, htype, hid, hsize⟩ := h
  rw [lfsTagType1_toNat]
  omega

theorem chunk (h : HasFields tag type id size) : (lfsTagChunk tag).toNat = type % 2 ^ 8 := by
  obtain ⟨heq, htype, hid, hsize⟩ := h
  rw [lfsTagChunk_toNat]
  omega

theorem tagId (h : HasFields tag type id size) : (lfsTagId tag).toNat = id := by
  obtain ⟨heq, htype, hid, hsize⟩ := h
  rw [lfsTagId_toNat]
  omega

theorem tagSize (h : HasFields tag type id size) : (lfsTagSize tag).toNat = size := by
  obtain ⟨heq, htype, hid, hsize⟩ := h
  rw [lfsTagSize_toNat]
  omega

theorem isdelete (h : HasFields tag type id size) : lfsTagIsdelete tag = true ↔ size = 1023 := by
  obtain ⟨heq, htype, hid, hsize⟩ := h
  rw [lfsTagIsdelete_iff]
  omega

end HasFields

/-- A valid tag and its fields. -/
structure IsTag (tag : UInt32) (type id size : Nat) : Prop extends HasFields tag type id size where
  valid : lfsTagIsvalid tag = true

theorem isTag_iff : IsTag tag type id size ↔ tag.toNat = type * 2 ^ 20 + id * 2 ^ 10 + size ∧
    type < 2 ^ 11 ∧ id < 2 ^ 10 ∧ size < 2 ^ 10 := by
  constructor
  · rintro ⟨⟨heq, htype, hid, hsize⟩, hvalid⟩
    rw [Nat.mod_eq_of_lt (lfsTagIsvalid_iff.mp hvalid)] at heq
    exact ⟨heq, htype, hid, hsize⟩
  · rintro ⟨heq, htype, hid, hsize⟩
    exact ⟨⟨by omega, htype, hid, hsize⟩, lfsTagIsvalid_iff.mpr (by omega)⟩

theorem IsTag.ext_iff (h : IsTag tag type id size) {type' id' size' : Nat}
    (h' : IsTag tag' type' id' size') : tag = tag' ↔ type = type' ∧ id = id' ∧ size = size' := by
  rw [isTag_iff] at h h'
  rw [← UInt32.toNat_inj]
  omega

/-- The size of a tag with its data. A tag that deletes has none. -/
theorem lfsTagDsize_toNat (tag : UInt32) :
    (lfsTagDsize tag).toNat = 4 + if tag.toNat % 2 ^ 10 = 1023 then 0 else tag.toNat % 2 ^ 10 := by
  have hlt := tag.toNat_lt
  rw [lfsTagDsize, UInt32.toNat_add, lfsTagSize_toNat, UInt32.toNat_add]
  by_cases hdel : tag.toNat % 2 ^ 10 = 1023
  · rw [if_pos (lfsTagIsdelete_iff.mpr hdel), if_pos hdel]
    show (4 + (tag.toNat + 1) % _ % _) % _ = _
    omega
  · rw [if_neg (fun h => hdel (lfsTagIsdelete_iff.mp h)), if_neg hdel]
    show (4 + (tag.toNat + 0) % _ % _) % _ = _
    omega

theorem dsize_of_low {tag tag' : UInt32} (h : tag &&& 0x7fffffff = tag' &&& 0x7fffffff) :
    (lfsTagDsize tag).toNat = (lfsTagDsize tag').toNat := by
  have hlow : tag.toNat % 2 ^ 31 = tag'.toNat % 2 ^ 31 := by
    rw [← and_valid_toNat, h, and_valid_toNat]
  have hten : tag.toNat % 2 ^ 10 = tag'.toNat % 2 ^ 10 := by omega
  rw [lfsTagDsize_toNat, lfsTagDsize_toNat, hten]

/-! ## The bit of validity -/

theorem xor_and (a b k : UInt32) : (a ^^^ b) &&& k = (a &&& k) ^^^ (b &&& k) := by
  apply UInt32.toBitVec_inj.mp
  apply BitVec.eq_of_getLsbD_eq
  intro i hi
  simp only [UInt32.toBitVec_and, UInt32.toBitVec_xor, BitVec.getLsbD_and, BitVec.getLsbD_xor]
  cases k.toBitVec.getLsbD i <;> simp

theorem or_and (a b k : UInt32) : (a ||| b) &&& k = (a &&& k) ||| (b &&& k) := by
  apply UInt32.toBitVec_inj.mp
  apply BitVec.eq_of_getLsbD_eq
  intro i hi
  simp only [UInt32.toBitVec_and, UInt32.toBitVec_or, BitVec.getLsbD_and, BitVec.getLsbD_or]
  cases k.toBitVec.getLsbD i <;> simp

/-- A word that was xored with a tag, xored with the same tag again. -/
theorem xor_xor_and {a p n k : UInt32} (h : n &&& k = a &&& k) : (a ^^^ p ^^^ n) &&& k = p &&& k := by
  rw [xor_and, xor_and, h, UInt32.xor_comm (a &&& k), UInt32.xor_assoc, UInt32.xor_self, UInt32.xor_zero]

/-! ## Making tags -/

theorem mkTag_isTag {type id size : UInt32} (htype : type.toNat < 2 ^ 11) (hid : id.toNat < 2 ^ 10)
    (hsize : size.toNat < 2 ^ 10) : IsTag (mkTag type id size) type.toNat id.toNat size.toNat := by
  have hshift : (type <<< 20).toNat = 2 ^ 20 * type.toNat :=
    toNat_shiftLeft_of_lt (k := 20) (by decide) (by omega)
  have hshift' : (id <<< 10).toNat = 2 ^ 10 * id.toNat :=
    toNat_shiftLeft_of_lt (k := 10) (by decide) (by omega)
  have hupper : ((type <<< 20) ||| (id <<< 10)).toNat = 2 ^ 10 * (2 ^ 10 * type.toNat + id.toNat) := by
    rw [UInt32.or_comm, toNat_or_of_lt (k := 20) (n := type.toNat) (by rw [hshift']; omega) hshift, hshift']
    omega
  refine isTag_iff.mpr ⟨?_, htype, hid, hsize⟩
  rw [mkTag, UInt32.or_comm, toNat_or_of_lt hsize hupper]
  omega

/-- One id less, and one id more. -/
theorem HasFields.sub_id (h : HasFields tag type (id + 1) size) :
    HasFields (tag - mkTag 0 1 0) type id size := by
  obtain ⟨heq, htype, hid, hsize⟩ := h
  have hone : (mkTag 0 1 0).toNat = 1024 := by decide
  refine ⟨?_, htype, by omega, hsize⟩
  rw [UInt32.toNat_sub, hone]
  omega

theorem HasFields.add_id (h : HasFields tag type id size) (hid : id + 1 < 2 ^ 10) :
    HasFields (tag + mkTag 0 1 0) type (id + 1) size := by
  obtain ⟨heq, htype, -, hsize⟩ := h
  have hone : (mkTag 0 1 0).toNat = 1024 := by decide
  refine ⟨?_, htype, hid, hsize⟩
  rw [UInt32.toNat_add, hone]
  omega

theorem IsTag.sub_id (h : IsTag tag type (id + 1) size) : IsTag (tag - mkTag 0 1 0) type id size := by
  obtain ⟨heq, htype, hid, hsize⟩ := isTag_iff.mp h
  have hone : (mkTag 0 1 0).toNat = 1024 := by decide
  refine isTag_iff.mpr ⟨?_, htype, by omega, hsize⟩
  rw [UInt32.toNat_sub, hone]
  omega

theorem IsTag.add_id (h : IsTag tag type id size) (hid : id + 1 < 2 ^ 10) :
    IsTag (tag + mkTag 0 1 0) type (id + 1) size := by
  obtain ⟨heq, htype, -, hsize⟩ := isTag_iff.mp h
  have hone : (mkTag 0 1 0).toNat = 1024 := by decide
  refine isTag_iff.mpr ⟨?_, htype, hid, hsize⟩
  rw [UInt32.toNat_add, hone]
  omega

/-- What a mask for part of the type and the id lets through. -/
theorem mask_and_toNat (h : HasFields tag type id size) {m n : UInt32} (hm : m.toNat < 2 ^ 11)
    (hn : n = 0 ∨ n = 0x3ff) :
    (mkTag m n 0 &&& tag).toNat = (m.toNat &&& type) * 2 ^ 20 + if n = 0 then 0 else id * 2 ^ 10 := by
  obtain ⟨heq, htype, hid, hsize⟩ := h
  have hn' : n.toNat < 2 ^ 10 := by
    rcases hn with rfl | rfl <;> decide
  obtain ⟨hmask, -⟩ := isTag_iff.mp (mkTag_isTag hm hn' (show (0 : UInt32).toNat < 2 ^ 10 by decide))
  have hsplit : tag.toNat = tag.toNat % 2 ^ 31 + 2 ^ 31 * (tag.toNat / 2 ^ 31) := (Nat.mod_add_div _ _).symm
  have hlow : (m.toNat * 2 ^ 20 + n.toNat * 2 ^ 10 + (0 : UInt32).toNat) &&& tag.toNat =
      (m.toNat * 2 ^ 20 + n.toNat * 2 ^ 10 + (0 : UInt32).toNat) &&& (type * 2 ^ 20 + id * 2 ^ 10 + size) := by
    have hdigit := @and_add_mul 31 (m.toNat * 2 ^ 20 + n.toNat * 2 ^ 10 + (0 : UInt32).toNat)
      (tag.toNat % 2 ^ 31) (by show _ + 0 < _; omega) (Nat.mod_lt _ (by decide)) 0 (tag.toNat / 2 ^ 31)
    rw [← hsplit, Nat.mul_zero, Nat.add_zero, Nat.zero_and, Nat.mul_zero, Nat.add_zero, heq] at hdigit
    exact hdigit
  have hids : n.toNat &&& id = if n = 0 then 0 else id := by
    rcases hn with rfl | rfl
    · exact Nat.zero_and id
    · show 2 ^ 10 - 1 &&& id = _
      rw [Nat.and_comm, Nat.and_two_pow_sub_one_eq_mod, Nat.mod_eq_of_lt hid]
      rfl
  rw [UInt32.toNat_and, hmask, hlow,
    show m.toNat * 2 ^ 20 + n.toNat * 2 ^ 10 + (0 : UInt32).toNat =
      0 + 2 ^ 10 * (n.toNat + 2 ^ 10 * m.toNat) by show _ + 0 = _; omega,
    show type * 2 ^ 20 + id * 2 ^ 10 + size = size + 2 ^ 10 * (id + 2 ^ 10 * type) by omega,
    and_add_mul (by decide) hsize, and_add_mul hn' hid, hids, Nat.zero_and]
  split <;> omega

/-- What a mask with `b` zeros at the end lets through. -/
theorem upper_and (b a k : Nat) : 2 ^ b * a &&& k = 2 ^ b * (a &&& k / 2 ^ b) := by
  have hdigit := @and_add_mul b 0 (k % 2 ^ b) (Nat.two_pow_pos b) (Nat.mod_lt _ (Nat.two_pow_pos b)) a (k / 2 ^ b)
  rwa [Nat.mod_add_div, Nat.zero_and, Nat.zero_add, Nat.zero_add] at hdigit

theorem full_and {k : Nat} (hk : k < 2 ^ 11) : (0x7ff : UInt32).toNat &&& k = k := by
  rw [Nat.and_comm]
  exact (Nat.and_two_pow_sub_one_eq_mod k 11).trans (Nat.mod_eq_of_lt hk)

/-- The tag of a splice, with an id taken from another tag. -/
theorem spliceTag_isTag (h : HasFields tag type id size) {splice : UInt32} {n : Nat} (hn : splice.toNat = n)
    (hlt : n < 2 ^ 11) : IsTag (mkTag splice 0 0 ||| (mkTag 0 0x3ff 0 &&& tag)) n id 0 := by
  have hid := h.id_lt
  have hand := mask_and_toNat h (m := 0) (by decide) (.inr rfl : (0x3ff : UInt32) = 0 ∨ _)
  have hzero : (0 : UInt32).toNat &&& type = 0 := Nat.zero_and type
  rw [if_neg (by decide), hzero, Nat.zero_mul, Nat.zero_add] at hand
  have hsmall : (0 : UInt32).toNat < 2 ^ 10 := by decide
  have hlt' : splice.toNat < 2 ^ 11 := by omega
  obtain ⟨hsplice, -⟩ := isTag_iff.mp (mkTag_isTag hlt' hsmall hsmall)
  have htag : (mkTag splice 0 0).toNat = 2 ^ 20 * n := by
    rw [hsplice, hn]
    show n * 2 ^ 20 + 0 * 2 ^ 10 + 0 = _
    omega
  refine isTag_iff.mpr ⟨?_, hlt, hid, by decide⟩
  rw [UInt32.or_comm, toNat_or_of_lt (k := 20) (by rw [hand]; omega) htag, hand]
  omega

theorem createTag_isTag (h : HasFields tag type id size) :
    IsTag (mkTag LFS_TYPE_CREATE 0 0 ||| (mkTag 0 0x3ff 0 &&& tag)) 0x401 id 0 :=
  spliceTag_isTag h rfl (by decide)

theorem deleteTag_isTag (h : HasFields tag type id size) :
    IsTag (mkTag LFS_TYPE_DELETE 0 0 ||| (mkTag 0 0x3ff 0 &&& tag)) 0x4ff id 0 :=
  spliceTag_isTag h rfl (by decide)

/-- Two tags that a mask does not tell apart. -/
theorem mask_eq_iff (h : HasFields tag type id size) {type' id' size' : Nat}
    (h' : HasFields tag' type' id' size') {m : UInt32} (hm : m.toNat < 2 ^ 11) :
    mkTag m 0x3ff 0 &&& tag = mkTag m 0x3ff 0 &&& tag' ↔
      m.toNat &&& type = m.toNat &&& type' ∧ id = id' := by
  have hand := mask_and_toNat h hm (n := 0x3ff) (.inr rfl)
  have hand' := mask_and_toNat h' hm (n := 0x3ff) (.inr rfl)
  have hid := h.id_lt
  have hid' := h'.id_lt
  rw [← UInt32.toNat_inj, hand, hand', if_neg (by decide), if_neg (by decide)]
  omega

theorem mask_type_eq_iff (h : HasFields tag type id size) {type' id' size' : Nat}
    (h' : HasFields tag' type' id' size') {m : UInt32} (hm : m.toNat < 2 ^ 11) :
    mkTag m 0 0 &&& tag = mkTag m 0 0 &&& tag' ↔ m.toNat &&& type = m.toNat &&& type' := by
  have hand := mask_and_toNat h hm (n := 0) (.inl rfl)
  have hand' := mask_and_toNat h' hm (n := 0) (.inl rfl)
  rw [← UInt32.toNat_inj, hand, hand', if_pos rfl, if_pos rfl]
  omega

end HasFields

end LfsTool
