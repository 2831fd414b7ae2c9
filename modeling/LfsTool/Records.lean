import LfsTool.Caches
import LfsTool.Tags
import LfsTool.Lib.Splices

/-!
# LfsTool.Records

What a block of a metadata pair has behind its revision count: tags, each xored with the one before it,
and their data.

* `Record`, `encode`: a tag with its data, and a list of them as bytes.
* `tagEntry`: what a tag says about the entries of the directory.
* `Counts`: the number of entries the records speak of.
* `encode_snoc`, `read_tag`: the last record and how a tag is read back.
-/

namespace LfsTool

open BlockArray BitCount

/-- What a tag says about the entries of the directory. The tags of the largest types are about the
block. -/
def tagEntry {ν : Type} (tag : UInt32) (v : ν) : Option (Splices.Edit Nat ν) :=
  if (lfsTagType3 tag).toNat / 2 ^ 8 = 4 then
    if (lfsTagType3 tag).toNat = 0x401 then some (.create (lfsTagId tag).toNat)
    else some (.delete (lfsTagId tag).toNat)
  else if (lfsTagType3 tag).toNat < 2 ^ 10 then some (.put (lfsTagId tag).toNat (lfsTagType3 tag).toNat v)
  else none

/-- Splices are of two kinds and have no data. -/
def ProperTag (tag : UInt32) : Prop :=
  (lfsTagType3 tag).toNat / 2 ^ 8 = 4 →
    ((lfsTagType3 tag).toNat = 0x401 ∨ (lfsTagType3 tag).toNat = 0x4ff) ∧ (lfsTagSize tag).toNat = 0

/-- What an attribute is: the largest size there is says that it has been removed. -/
structure Value where
  size : Nat
  data : List UInt8

def Value.Removed (v : Value) : Prop := v.size = 0x3ff

instance (v : Value) : Decidable v.Removed := inferInstanceAs (Decidable (_ = _))

/-- A tag with its data. -/
structure Record where
  tag : UInt32
  data : List UInt8
  valid : lfsTagIsvalid tag = true
  length : data.length + 4 = (lfsTagDsize tag).toNat

namespace Record

def type (r : Record) : Nat := (lfsTagType3 r.tag).toNat

def id (r : Record) : Nat := (lfsTagId r.tag).toNat

def size (r : Record) : Nat := (lfsTagSize r.tag).toNat

def value (r : Record) : Value := ⟨r.size, r.data⟩

def entry (r : Record) : Option (Splices.Edit Nat Value) := tagEntry r.tag r.value

theorem fields (r : Record) : IsTag r.tag r.type r.id r.size := ⟨hasFields r.tag, r.valid⟩

theorem length_eq (r : Record) : r.data.length = if r.value.Removed then 0 else r.size := by
  have hlen := r.length
  have hsize : r.size = r.tag.toNat % 2 ^ 10 := lfsTagSize_toNat r.tag
  rw [lfsTagDsize_toNat, ← hsize] at hlen
  by_cases hdel : r.value.Removed
  · rw [if_pos (show r.size = 1023 from hdel)] at hlen
    rw [if_pos hdel]
    omega
  · rw [if_neg (show ¬r.size = 1023 from hdel)] at hlen
    rw [if_neg hdel]
    omega

end Record

section Edit

variable {ν : Type} {tag : UInt32} {v : ν} {i k : Nat}

theorem tagEntry_create (h : tagEntry tag v = some (.create i)) :
    (lfsTagType3 tag).toNat = 0x401 ∧ (lfsTagId tag).toNat = i := by
  unfold tagEntry at h
  split at h
  · split at h
    · cases h
      exact ⟨‹_›, rfl⟩
    · cases h
  · split at h <;> cases h

theorem tagEntry_delete (hproper : ProperTag tag) (h : tagEntry tag v = some (.delete i)) :
    (lfsTagType3 tag).toNat = 0x4ff ∧ (lfsTagId tag).toNat = i := by
  unfold tagEntry at h
  split at h
  · split at h
    · cases h
    · cases h
      exact ⟨(hproper ‹_›).1.resolve_left ‹_›, rfl⟩
  · split at h <;> cases h

theorem tagEntry_put {v' : ν} (h : tagEntry tag v = some (.put i k v')) :
    (lfsTagType3 tag).toNat < 2 ^ 10 ∧ (lfsTagId tag).toNat = i ∧ (lfsTagType3 tag).toNat = k ∧ v = v' := by
  unfold tagEntry at h
  split at h
  · split at h <;> cases h
  · split at h
    · cases h
      exact ⟨‹_›, rfl, rfl, rfl⟩
    · cases h

theorem tagEntry_none (h : tagEntry tag v = none) :
    2 ^ 10 ≤ (lfsTagType3 tag).toNat ∧ ¬(lfsTagType3 tag).toNat / 2 ^ 8 = 4 := by
  unfold tagEntry at h
  split at h
  · split at h <;> cases h
  · split at h
    · cases h
    · omega

theorem tagEntry_map {ν' : Type} (f : ν → ν') (tag : UInt32) (v : ν) :
    (tagEntry tag v).map (Splices.Edit.map f) = tagEntry tag (f v) := by
  unfold tagEntry
  split
  · split <;> rfl
  · split <;> rfl

end Edit

/-- What the tag after this one is xored with. -/
def nextPtag (tag : UInt32) : UInt32 :=
  if lfsTagType1 tag = LFS_TYPE_CRC then tag ^^^ ((lfsTagChunk tag &&& 1) <<< 31) else tag

def encode : UInt32 → List Record → List UInt8
  | _, [] => []
  | ptag, r :: rs => be32 (r.tag ^^^ ptag) ++ r.data ++ encode (nextPtag r.tag) rs

def lastPtag : UInt32 → List Record → UInt32
  | ptag, [] => ptag
  | _, r :: rs => lastPtag (nextPtag r.tag) rs

section Encode

variable {ptag : UInt32} {rs rs' : List Record}

theorem encode_append (ptag : UInt32) (rs rs' : List Record) :
    encode ptag (rs ++ rs') = encode ptag rs ++ encode (lastPtag ptag rs) rs' := by
  induction rs generalizing ptag with
  | nil => rfl
  | cons r rs ih => simp only [List.cons_append, encode, lastPtag, ih, List.append_assoc]

theorem lastPtag_append (ptag : UInt32) (rs rs' : List Record) :
    lastPtag ptag (rs ++ rs') = lastPtag (lastPtag ptag rs) rs' := by
  induction rs generalizing ptag with
  | nil => rfl
  | cons r rs ih => exact ih (nextPtag r.tag)

theorem encode_snoc (ptag : UInt32) (rs : List Record) (r : Record) :
    encode ptag (rs ++ [r]) = encode ptag rs ++ be32 (r.tag ^^^ lastPtag ptag rs) ++ r.data := by
  simp only [encode_append, encode, List.append_nil, List.append_assoc]

theorem lastPtag_snoc (ptag : UInt32) (rs : List Record) (r : Record) :
    lastPtag ptag (rs ++ [r]) = nextPtag r.tag := by
  rw [lastPtag_append]
  rfl

theorem encode_length_snoc (ptag : UInt32) (rs : List Record) (r : Record) :
    (encode ptag (rs ++ [r])).length = (encode ptag rs).length + (lfsTagDsize r.tag).toNat := by
  have hlen := r.length
  simp only [encode_snoc, List.length_append, be32_length]
  omega

end Encode

/-! ## What the records say -/

abbrev logOf (rs : List Record) : List (Splices.Edit Nat Value) := rs.filterMap Record.entry

theorem grow_logOf {r : Record} {e : Splices.Edit Nat Value} (h : r.entry = some e) (b : Nat) (n : Nat × Bool) :
    (logOf [r]).foldlM (Splices.grow b) n = Splices.grow b n e := by
  rw [logOf, List.filterMap_cons_some h]
  exact bind_pure _

/-- The records count `n` entries, and never more than there are ids for. -/
def Counts (rs : List Record) (n : Nat) : Prop :=
  ∃ spliced, (logOf rs).foldlM (Splices.grow 0x3ff) (0, false) = some (n, spliced)

theorem Counts.within {rs : List Record} {n j : Nat} (h : Counts rs n) (hj : j < n) :
    Splices.Within 0x3ff (logOf rs) j := by
  obtain ⟨spliced, h⟩ := h
  exact (Splices.within_of_count h).2.1 j hj

/-! ## In a block -/

/-- The block has these bytes from `off` on. -/
def Holds (dev : Device UInt8) (block off : Nat) (bytes : List UInt8) : Prop :=
  dev.read block off bytes.length = bytes

section Holds

variable {dev : Device UInt8} {block off : Nat} {bytes bytes' : List UInt8}

theorem holds_append : Holds dev block off (bytes ++ bytes') ↔
    Holds dev block off bytes ∧ Holds dev block (off + bytes.length) bytes' := by
  unfold Holds
  rw [List.length_append, Device.read_add]
  constructor
  · intro h
    exact List.append_inj h (Device.read_length _ _ _ _)
  · rintro ⟨h, h'⟩
    rw [h, h']

theorem Holds.read {c : LfsConfig} {b : UInt32} (h : Holds dev b.toNat off bytes) (hc : Workable c)
    (hb : b < c.blockCount) (hfit : off + bytes.length ≤ c.blockSize.toNat) :
    deviceRead c dev bytes.length b off bytes.length = some (.ok bytes) := by
  rw [deviceRead_self hc hb hfit, h]

/-- A tag that is read is the one that was written, but for the bit that the tag before it has flipped. -/
theorem read_tag {c : LfsConfig} {b ptag : UInt32} {rs : List Record} {r : Record}
    (h : Holds dev b.toNat off (encode ptag (rs ++ [r]))) (hc : Workable c) (hb : b < c.blockCount)
    (hfit : off + (encode ptag (rs ++ [r])).length ≤ c.blockSize.toNat) :
    deviceRead c dev 4 b (off + (encode ptag rs).length) 4 =
      some (.ok (be32 (r.tag ^^^ lastPtag ptag rs))) := by
  have hlen := encode_length_snoc ptag rs r
  have hdsize := r.length
  rw [encode_snoc, holds_append, holds_append] at h
  have hread := h.1.2.read hc hb (by rw [be32_length]; omega)
  rwa [be32_length] at hread

end Holds

end LfsTool
