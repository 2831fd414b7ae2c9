import LfsTool.Records

/-!
# LfsTool.Lookup

`lfs_dir_getslice`, which looks for an attribute of an entry from the last tag of a metadata block back to
the first one.

* `Mdir`, `Gstate`: what is known of a metadata pair, and the global state with a move that is pending.
* `getsliceLoop_eq`: the search finds what replaying the records of the block gives.
* `lfsDirGet_moved`: with a move pending it looks into the wrong entry, but for one.
-/

namespace LfsTool

open BlockArray Splices

abbrev Pair := UInt32 × UInt32

def lfsPairSwap (pair : Pair) : Pair := (pair.2, pair.1)

/-- 0 for pairs with a block in common. -/
def lfsPairCmp (a b : Pair) : Nat :=
  if a.1 = b.1 ∨ a.2 = b.2 ∨ a.1 = b.2 ∨ a.2 = b.1 then 0 else 1

structure Gstate where
  tag : UInt32
  pair : Pair

def lfsGstateHasmovehere (a : Gstate) (pair : Pair) : Prop :=
  lfsTagType1 a.tag ≠ 0 ∧ lfsPairCmp a.pair pair = 0

instance (a : Gstate) (pair : Pair) : Decidable (lfsGstateHasmovehere a pair) :=
  inferInstanceAs (Decidable (_ ∧ _))

structure Mdir where
  pair : Pair
  rev : UInt32
  off : Nat
  etag : UInt32
  count : UInt16
  erased : Bool
  split : Bool
  tail : Pair

section Getslice

variable (rd : BdRead) (block gmask gtag : UInt32) (goff gsize : Nat)

/-- The loop of `lfs_dir_getslice`, over the tags from `ntag` at the end of `off` bytes back. -/
def getsliceLoop : Nat → Nat → UInt32 → UInt32 → Option (Except Int (UInt32 × List UInt8))
  | fuel, off, ntag, gdiff =>
    if off < 4 + (lfsTagDsize ntag).toNat then some (.error LFS_ERR_NOENT)
    else
      match fuel with
      | 0 => none
      | fuel + 1 =>
        let off := off - (lfsTagDsize ntag).toNat
        let tag := ntag
        match rd 4 block off 4 with
        | none => none
        | some (.error err) => some (.error err)
        | some (.ok bytes) =>
          let ntag := (lfsFrombe32 bytes ^^^ tag) &&& 0x7fffffff
          let splice := lfsTagId gmask ≠ 0 ∧ lfsTagType1 tag = LFS_TYPE_SPLICE ∧
            lfsTagId tag ≤ lfsTagId (gtag - gdiff)
          if splice ∧ tag = mkTag LFS_TYPE_CREATE 0 0 ||| (mkTag 0 0x3ff 0 &&& (gtag - gdiff)) then
            -- found where we were created
            some (.error LFS_ERR_NOENT)
          else
            let gdiff := if splice then gdiff + mkTag 0 (lfsTagSplice tag) 0 else gdiff
            if gmask &&& tag = gmask &&& (gtag - gdiff) then
              if lfsTagIsdelete tag then some (.error LFS_ERR_NOENT)
              else
                let diff := min (lfsTagSize tag).toNat gsize
                match rd diff block (add32 (add32 off 4) goff) diff with
                | none => none
                | some (.error err) => some (.error err)
                | some (.ok data) => some (.ok (tag + gdiff, data ++ List.replicate (gsize - diff) 0))
            else getsliceLoop fuel off ntag gdiff

end Getslice

def lfsDirGetslice (rd : BdRead) (gstate : Gstate) (dir : Mdir) (gmask gtag : UInt32) (goff gsize : Nat) :
    Option (Except Int (UInt32 × List UInt8)) :=
  let gdiff :=
    if lfsGstateHasmovehere gstate dir.pair ∧ lfsTagId gtag ≤ lfsTagId gstate.tag then
      -- synthetic moves
      0 - mkTag 0 1 0
    else 0
  getsliceLoop rd dir.pair.1 gmask gtag goff gsize dir.off dir.off dir.etag gdiff

def lfsDirGet (rd : BdRead) (gstate : Gstate) (dir : Mdir) (gmask gtag : UInt32) :
    Option (Except Int (UInt32 × List UInt8)) :=
  lfsDirGetslice rd gstate dir gmask gtag 0 (lfsTagSize gtag).toNat

/-! ## One turn -/

section Turn

variable {c : LfsConfig} {dev : Device UInt8} {block gmask gtag gdiff ntag : UInt32} {gsize : Nat}
  {rs : List Record} {r : Record}

def answer (gsize g : Nat) : Option (Nat × Value) → Except Int (UInt32 × List UInt8)
  | none => .error LFS_ERR_NOENT
  | some (type, v) =>
    if v.Removed then .error LFS_ERR_NOENT
    else .ok (UInt32.ofNat (type * 2 ^ 20 + g * 2 ^ 10 + v.size),
      v.data.take gsize ++ List.replicate (gsize - v.data.length) 0)

theorem nextPtag_and (r : Record) : nextPtag r.tag &&& 0x7fffffff = r.tag := by
  have hlt := lfsTagIsvalid_iff.mp r.valid
  have hself : r.tag &&& 0x7fffffff = r.tag := by
    rw [← UInt32.toNat_inj, and_valid_toNat, Nat.mod_eq_of_lt hlt]
  unfold nextPtag
  split
  · have hbit : ((lfsTagChunk r.tag &&& 1) <<< 31) &&& 0x7fffffff = 0 := by
      rw [← UInt32.toNat_inj, and_valid_toNat, UInt32.toNat_shiftLeft]
      show (lfsTagChunk r.tag &&& 1).toNat <<< 31 % 2 ^ 32 % 2 ^ 31 = 0
      rw [Nat.shiftLeft_eq]
      omega
    rw [xor_and, hself, hbit, UInt32.xor_zero]
  · exact hself

theorem dsize_nextPtag (r : Record) : (lfsTagDsize (nextPtag r.tag)).toNat = (lfsTagDsize r.tag).toNat :=
  dsize_of_low (by rw [nextPtag_and, ← nextPtag_and r, UInt32.and_assoc, UInt32.and_self])

/-- The tag the search has come to: the one of the last record, and as it is written if it is compared. -/
structure At (ntag : UInt32) (r : Record) : Prop where
  low : ntag &&& 0x7fffffff = r.tag
  same : r.type / 2 ^ 8 ≠ 5 → ntag = r.tag

theorem At.toNat (h : At ntag r) : ntag.toNat % 2 ^ 31 = r.tag.toNat := by
  rw [← h.low, and_valid_toNat]

theorem type1_eq_iff (r : Record) {type : UInt32} (htype : type.toNat % 2 ^ 8 = 0) :
    lfsTagType1 r.tag = type ↔ r.type / 2 ^ 8 = type.toNat / 2 ^ 8 := by
  rw [← UInt32.toNat_inj, r.fields.type1]
  omega

theorem At.type1 (h : At ntag r) : lfsTagType1 ntag = lfsTagType1 r.tag := by
  have hlow := h.toNat
  rw [← UInt32.toNat_inj, lfsTagType1_toNat, lfsTagType1_toNat]
  omega

theorem At.tagId (h : At ntag r) : (lfsTagId ntag).toNat = r.id := by
  have hlow := h.toNat
  rw [lfsTagId_toNat, Record.id, lfsTagId_toNat]
  omega

theorem At.dsize (h : At ntag r) : (lfsTagDsize ntag).toNat = (lfsTagDsize r.tag).toNat := by
  have hlow := h.toNat
  have hten : ntag.toNat % 2 ^ 10 = r.tag.toNat % 2 ^ 10 := by omega
  rw [lfsTagDsize_toNat, lfsTagDsize_toNat, hten]

theorem At.next (h : At ntag r) (rs : List Record) :
    (lfsFrombe32 (be32 (r.tag ^^^ lastPtag 0xffffffff rs)) ^^^ ntag) &&& 0x7fffffff =
      lastPtag 0xffffffff rs &&& 0x7fffffff := by
  rw [lfsFrombe32_be32]
  apply xor_xor_and
  rw [h.low, ← nextPtag_and r, UInt32.and_assoc, UInt32.and_self]

theorem at_of_eq {rs : List Record} (h : ntag = lastPtag 0xffffffff (rs ++ [r]) ∨
    ntag = lastPtag 0xffffffff (rs ++ [r]) &&& 0x7fffffff) : At ntag r := by
  rw [lastPtag_snoc, nextPtag_and] at h
  refine ⟨?_, fun htype => ?_⟩
  · rcases h with rfl | rfl
    · exact nextPtag_and r
    · rw [← nextPtag_and r, UInt32.and_assoc, UInt32.and_self]
  · rcases h with rfl | rfl
    · unfold nextPtag
      rw [if_neg]
      rw [type1_eq_iff r (by decide)]
      exact htype
    · rfl

theorem getsliceLoop_turn {goff fuel : Nat} (h : At ntag r)
    (hc : Workable c) (hb : block < c.blockCount)
    (hholds : Holds dev block.toNat 4 (encode 0xffffffff (rs ++ [r])))
    (hfit : 4 + (encode 0xffffffff (rs ++ [r])).length ≤ c.blockSize.toNat) :
    getsliceLoop (deviceRead c dev) block gmask gtag goff gsize (fuel + 1)
        (4 + (encode 0xffffffff (rs ++ [r])).length) ntag gdiff =
      let splice := lfsTagId gmask ≠ 0 ∧ r.type / 2 ^ 8 = 4 ∧ lfsTagId ntag ≤ lfsTagId (gtag - gdiff)
      if splice ∧ ntag = mkTag LFS_TYPE_CREATE 0 0 ||| (mkTag 0 0x3ff 0 &&& (gtag - gdiff)) then
        some (.error LFS_ERR_NOENT)
      else
        let gdiff := if splice then gdiff + mkTag 0 (lfsTagSplice ntag) 0 else gdiff
        if gmask &&& ntag = gmask &&& (gtag - gdiff) then
          if lfsTagIsdelete ntag then some (.error LFS_ERR_NOENT)
          else
            let diff := min (lfsTagSize ntag).toNat gsize
            match deviceRead c dev diff block (add32 (add32 (4 + (encode 0xffffffff rs).length) 4) goff) diff with
            | none => none
            | some (.error err) => some (.error err)
            | some (.ok data) => some (.ok (ntag + gdiff, data ++ List.replicate (gsize - diff) 0))
        else getsliceLoop (deviceRead c dev) block gmask gtag goff gsize fuel
          (4 + (encode 0xffffffff rs).length) (lastPtag 0xffffffff rs &&& 0x7fffffff) gdiff := by
  have hlen := encode_length_snoc 0xffffffff rs r
  have hdsize := h.dsize
  have htype : lfsTagType1 ntag = LFS_TYPE_SPLICE ↔ r.type / 2 ^ 8 = 4 := by
    rw [h.type1, type1_eq_iff r (by decide)]
    rfl
  have hoff : 4 + (encode 0xffffffff (rs ++ [r])).length - (lfsTagDsize ntag).toNat =
      4 + (encode 0xffffffff rs).length := by omega
  rw [getsliceLoop, if_neg (by omega)]
  simp only [hoff, read_tag hholds hc hb hfit, h.next rs, htype]

end Turn

/-! ## The search -/

section Search

variable {c : LfsConfig} {dev : Device UInt8} {block gtag gdiff ntag m : UInt32} {gsize T S g j : Nat}
  {rs : List Record} {r : Record}

/-- A mask of a type that no tag of a splice or of a larger type matches. -/
structure Selects (m : UInt32) (T : Nat) : Prop where
  lt : m.toNat < 2 ^ 11
  entries : ∀ k < 2 ^ 11, m.toNat &&& k = m.toNat &&& T → k < 2 ^ 10

/-- The masks for whole types and for parts of them, of the values of an entry. -/
theorem selects_of (hm : m.toNat < 2 ^ 11) (hbit : m.toNat.testBit 10 = true) (hT : T < 2 ^ 10) :
    Selects m T := by
  refine ⟨hm, fun k hk heq => ?_⟩
  have hand := congrArg (fun x => x.testBit 10) heq
  simp only [Nat.testBit_and, hbit, Bool.true_and, Nat.testBit_lt_two_pow hT] at hand
  by_contra hge
  have hbitk : k.testBit 10 = true := by
    rw [Nat.testBit_eq_decide_div_mod_eq, decide_eq_true_eq]
    omega
  rw [hbitk] at hand
  cases hand

theorem Selects.tagId (h : Selects m T) : lfsTagId (mkTag m 0x3ff 0) ≠ 0 := by
  have hfields := mkTag_isTag h.lt (show (0x3ff : UInt32).toNat < 2 ^ 10 by decide)
    (show (0 : UInt32).toNat < 2 ^ 10 by decide)
  intro hzero
  have hid := hfields.tagId
  rw [hzero] at hid
  cases hid

theorem Selects.not_match (h : Selects m T) (hat : At ntag r) (htype : 2 ^ 10 ≤ r.type)
    (hcur : IsTag (gtag - gdiff) T j S) :
    ¬mkTag m 0x3ff 0 &&& ntag = mkTag m 0x3ff 0 &&& (gtag - gdiff) := by
  intro heq
  have hvalid : ∀ {m : UInt32}, m.toNat < 2 ^ 11 → mkTag m 0x3ff 0 &&& 0x7fffffff = mkTag m 0x3ff 0 := by
    intro m hm
    have hfields := mkTag_isTag hm (show (0x3ff : UInt32).toNat < 2 ^ 10 by decide)
      (show (0 : UInt32).toNat < 2 ^ 10 by decide)
    rw [← UInt32.toNat_inj, and_valid_toNat, Nat.mod_eq_of_lt (lfsTagIsvalid_iff.mp hfields.valid)]
  have hlow : mkTag m 0x3ff 0 &&& ntag = mkTag m 0x3ff 0 &&& r.tag := by
    rw [← hat.low, UInt32.and_comm ntag, ← UInt32.and_assoc, hvalid h.lt]
  rw [hlow, mask_eq_iff r.fields.toHasFields hcur.toHasFields h.lt] at heq
  have := h.entries r.type r.fields.type_lt heq.1
  omega

theorem Selects.match_iff (h : Selects m T) (hat : At ntag r) (htype : r.type < 2 ^ 10)
    (hcur : IsTag (gtag - gdiff) T j S) :
    mkTag m 0x3ff 0 &&& ntag = mkTag m 0x3ff 0 &&& (gtag - gdiff) ↔
      r.id = j ∧ m.toNat &&& r.type = m.toNat &&& T := by
  rw [hat.same (by omega), mask_eq_iff r.fields.toHasFields hcur.toHasFields h.lt, and_comm]

theorem splice_create {tag : UInt32} (h : (lfsTagType3 tag).toNat = 0x401) : lfsTagSplice tag = 1 := by
  have hchunk : lfsTagChunk tag = 1 := by
    rw [← UInt32.toNat_inj, (hasFields tag).chunk, h]
    rfl
  rw [lfsTagSplice, hchunk]
  rfl

theorem splice_delete {tag : UInt32} (h : (lfsTagType3 tag).toNat = 0x4ff) : lfsTagSplice tag = 0 - 1 := by
  have hchunk : lfsTagChunk tag = 0xff := by
    rw [← UInt32.toNat_inj, (hasFields tag).chunk, h]
    rfl
  rw [lfsTagSplice, hchunk]
  rfl

theorem sub_add_id (a b : UInt32) : a - (b + mkTag 0 1 0) = a - b - mkTag 0 1 0 := by
  rw [← UInt32.toNat_inj, UInt32.toNat_sub, UInt32.toNat_add, UInt32.toNat_sub, UInt32.toNat_sub]
  have hone : (mkTag 0 1 0).toNat = 1024 := by decide
  have ha := a.toNat_lt
  have hb := b.toNat_lt
  rw [hone]
  omega

theorem sub_add_neg_id (a b : UInt32) : a - (b + mkTag 0 (0 - 1) 0) = a - b + mkTag 0 1 0 := by
  have hneg : mkTag 0 (0 - 1) 0 = 0 - mkTag 0 1 0 := by decide
  rw [hneg, ← UInt32.toNat_inj, UInt32.toNat_sub, UInt32.toNat_add, UInt32.toNat_add, UInt32.toNat_sub,
    UInt32.toNat_sub]
  have hone : (mkTag 0 1 0).toNat = 1024 := by decide
  have ha := a.toNat_lt
  have hb := b.toNat_lt
  rw [hone]
  show (2 ^ 32 - (b.toNat + (2 ^ 32 - 1024 + 0) % 2 ^ 32) % 2 ^ 32 + a.toNat) % 2 ^ 32 = _
  omega

/-- The entry the search is about was created here. -/
theorem At.self_iff (hat : At ntag r) (htype : r.type / 2 ^ 8 ≠ 5) (hcur : IsTag (gtag - gdiff) T j S) :
    ntag = mkTag LFS_TYPE_CREATE 0 0 ||| (mkTag 0 0x3ff 0 &&& (gtag - gdiff)) ↔
      r.type = 0x401 ∧ r.id = j ∧ r.size = 0 := by
  rw [hat.same htype, r.fields.ext_iff (createTag_isTag hcur.toHasFields)]

theorem turn_pass (hsel : Selects m T) (hat : At ntag r) (htype : 2 ^ 10 ≤ r.type)
    (hcur : IsTag (gtag - gdiff) T j S) (hids : r.type / 2 ^ 8 = 4 → j < r.id)
    (hc : Workable c) (hb : block < c.blockCount)
    (hholds : Holds dev block.toNat 4 (encode 0xffffffff (rs ++ [r])))
    (hfit : 4 + (encode 0xffffffff (rs ++ [r])).length ≤ c.blockSize.toNat) (fuel : Nat) :
    getsliceLoop (deviceRead c dev) block (mkTag m 0x3ff 0) gtag 0 gsize (fuel + 1)
        (4 + (encode 0xffffffff (rs ++ [r])).length) ntag gdiff =
      getsliceLoop (deviceRead c dev) block (mkTag m 0x3ff 0) gtag 0 gsize fuel
        (4 + (encode 0xffffffff rs).length) (lastPtag 0xffffffff rs &&& 0x7fffffff) gdiff := by
  have hnot : ¬(lfsTagId (mkTag m 0x3ff 0) ≠ 0 ∧ r.type / 2 ^ 8 = 4 ∧
      lfsTagId ntag ≤ lfsTagId (gtag - gdiff)) := by
    rintro ⟨-, hsplice, hle⟩
    rw [UInt32.le_iff_toNat_le, hat.tagId, hcur.tagId] at hle
    exact absurd (hids hsplice) (Nat.not_lt.mpr hle)
  rw [getsliceLoop_turn hat hc hb hholds hfit]
  simp only [if_neg hnot, if_neg (fun h => hnot (And.left h)), if_neg (hsel.not_match hat htype hcur)]

theorem turn_splice (hsel : Selects m T) (hat : At ntag r) (htype : r.type / 2 ^ 8 = 4)
    (hcur : IsTag (gtag - gdiff) T j S) (hle : r.id ≤ j) {i : Nat}
    (hcur' : IsTag (gtag - (gdiff + mkTag 0 (lfsTagSplice ntag) 0)) T i S)
    (hself : ¬ntag = mkTag LFS_TYPE_CREATE 0 0 ||| (mkTag 0 0x3ff 0 &&& (gtag - gdiff)))
    (hc : Workable c) (hb : block < c.blockCount)
    (hholds : Holds dev block.toNat 4 (encode 0xffffffff (rs ++ [r])))
    (hfit : 4 + (encode 0xffffffff (rs ++ [r])).length ≤ c.blockSize.toNat) (fuel : Nat) :
    getsliceLoop (deviceRead c dev) block (mkTag m 0x3ff 0) gtag 0 gsize (fuel + 1)
        (4 + (encode 0xffffffff (rs ++ [r])).length) ntag gdiff =
      getsliceLoop (deviceRead c dev) block (mkTag m 0x3ff 0) gtag 0 gsize fuel
        (4 + (encode 0xffffffff rs).length) (lastPtag 0xffffffff rs &&& 0x7fffffff)
        (gdiff + mkTag 0 (lfsTagSplice ntag) 0) := by
  have hsplice : lfsTagId (mkTag m 0x3ff 0) ≠ 0 ∧ r.type / 2 ^ 8 = 4 ∧
      lfsTagId ntag ≤ lfsTagId (gtag - gdiff) := by
    refine ⟨hsel.tagId, htype, ?_⟩
    rw [UInt32.le_iff_toNat_le, hat.tagId, hcur.tagId]
    exact hle
  rw [getsliceLoop_turn hat hc hb hholds hfit]
  simp only [if_pos hsplice, if_neg (fun h => hself (And.right h)),
    if_neg (hsel.not_match hat (by omega) hcur')]

theorem turn_self (hsel : Selects m T) (hat : At ntag r) (htype : r.type = 0x401) (hsize : r.size = 0)
    (hcur : IsTag (gtag - gdiff) T j S) (hid : r.id = j)
    (hc : Workable c) (hb : block < c.blockCount)
    (hholds : Holds dev block.toNat 4 (encode 0xffffffff (rs ++ [r])))
    (hfit : 4 + (encode 0xffffffff (rs ++ [r])).length ≤ c.blockSize.toNat) (fuel : Nat) :
    getsliceLoop (deviceRead c dev) block (mkTag m 0x3ff 0) gtag 0 gsize (fuel + 1)
        (4 + (encode 0xffffffff (rs ++ [r])).length) ntag gdiff = some (.error LFS_ERR_NOENT) := by
  have hsplice : lfsTagId (mkTag m 0x3ff 0) ≠ 0 ∧ r.type / 2 ^ 8 = 4 ∧
      lfsTagId ntag ≤ lfsTagId (gtag - gdiff) := by
    refine ⟨hsel.tagId, by omega, ?_⟩
    rw [UInt32.le_iff_toNat_le, hat.tagId, hcur.tagId]
    exact Nat.le_of_eq hid
  have hself : ntag = mkTag LFS_TYPE_CREATE 0 0 ||| (mkTag 0 0x3ff 0 &&& (gtag - gdiff)) :=
    (hat.self_iff (by omega) hcur).mpr ⟨htype, hid, hsize⟩
  rw [getsliceLoop_turn hat hc hb hholds hfit, if_pos ⟨hsplice, hself⟩]

theorem turn_put (hsel : Selects m T) (hg : IsTag gtag T g S) (hat : At ntag r)
    (htype : r.type < 2 ^ 10) (hcur : IsTag (gtag - gdiff) T j S)
    (hc : Workable c) (hb : block < c.blockCount)
    (hholds : Holds dev block.toNat 4 (encode 0xffffffff (rs ++ [r])))
    (hfit : 4 + (encode 0xffffffff (rs ++ [r])).length ≤ c.blockSize.toNat) (fuel : Nat) :
    getsliceLoop (deviceRead c dev) block (mkTag m 0x3ff 0) gtag 0 gsize (fuel + 1)
        (4 + (encode 0xffffffff (rs ++ [r])).length) ntag gdiff =
      if r.id = j ∧ m.toNat &&& r.type = m.toNat &&& T then some (answer gsize g (some (r.type, r.value)))
      else getsliceLoop (deviceRead c dev) block (mkTag m 0x3ff 0) gtag 0 gsize fuel
        (4 + (encode 0xffffffff rs).length) (lastPtag 0xffffffff rs &&& 0x7fffffff) gdiff := by
  have hnot : ¬(lfsTagId (mkTag m 0x3ff 0) ≠ 0 ∧ r.type / 2 ^ 8 = 4 ∧
      lfsTagId ntag ≤ lfsTagId (gtag - gdiff)) := by
    rintro ⟨-, hsplice, -⟩
    omega
  rw [getsliceLoop_turn hat hc hb hholds hfit]
  simp only [if_neg hnot, if_neg (fun h => hnot (And.left h)), hsel.match_iff hat htype hcur]
  by_cases hmatch : r.id = j ∧ m.toNat &&& r.type = m.toNat &&& T
  · rw [if_pos hmatch, if_pos hmatch, hat.same (by omega)]
    by_cases hdel : r.value.Removed
    · simp only [answer, if_pos hdel, if_pos (r.fields.isdelete.mpr hdel)]
    · have hnotdel : ¬lfsTagIsdelete r.tag = true := fun h => hdel (r.fields.isdelete.mp h)
      have hlen : r.data.length = r.size := by
        rw [r.length_eq, if_neg hdel]
      have hdiff : min (lfsTagSize r.tag).toNat gsize = min gsize r.data.length := by
        rw [hlen]
        exact Nat.min_comm _ _
      have hdata : Holds dev block.toNat (4 + (encode 0xffffffff rs).length + 4 + 0) (r.data.take gsize) := by
        rw [encode_snoc, holds_append, holds_append, List.length_append, be32_length] at hholds
        have hall := hholds.2
        rw [← List.take_append_drop gsize r.data, holds_append] at hall
        rw [Nat.add_zero, Nat.add_assoc 4]
        exact hall.1
      have hend := encode_length_snoc 0xffffffff rs r
      have hread := hdata.read hc hb (by
        have := r.length
        rw [List.length_take]
        omega)
      have hplace : add32 (add32 (4 + (encode 0xffffffff rs).length) 4) 0 =
          4 + (encode 0xffffffff rs).length + 4 + 0 := by
        have hsmall := hc.small
        rw [add32_eq (show 4 + (encode 0xffffffff rs).length + 4 < 2 ^ 32 by omega),
          add32_eq (show 4 + (encode 0xffffffff rs).length + 4 + 0 < 2 ^ 32 by omega)]
      rw [List.length_take] at hread
      have htag : r.tag + gdiff = UInt32.ofNat (r.type * 2 ^ 20 + g * 2 ^ 10 + r.size) := by
        obtain ⟨htag, hT, hj, hS⟩ := isTag_iff.mp r.fields
        obtain ⟨hgtag, -, hglt, -⟩ := isTag_iff.mp hg
        obtain ⟨hc, -⟩ := isTag_iff.mp hcur
        have hd := gdiff.toNat_lt
        rw [UInt32.toNat_sub] at hc
        rw [← UInt32.toNat_inj, UInt32.toNat_add, UInt32.toNat_ofNat']
        omega
      have hrest : gsize - min gsize r.data.length = gsize - r.data.length := by omega
      simp only [answer, if_neg hdel, if_neg hnotdel, hdiff, hplace, hread, htag, hrest]
      rfl
  · rw [if_neg hmatch, if_neg hmatch]

theorem getsliceLoop_eq (hsel : Selects m T) (hg : IsTag gtag T g S) (hc : Workable c)
    (hb : block < c.blockCount) (hholds : Holds dev block.toNat 4 (encode 0xffffffff rs))
    (hfit : 4 + (encode 0xffffffff rs).length ≤ c.blockSize.toNat) (hproper : ∀ r ∈ rs, ProperTag r.tag)
    (hcur : IsTag (gtag - gdiff) T j S) (hwithin : Within 0x3ff (rs.filterMap Record.entry) j)
    (hntag : ntag = lastPtag 0xffffffff rs ∨ ntag = lastPtag 0xffffffff rs &&& 0x7fffffff) {fuel : Nat}
    (hfuel : rs.length ≤ fuel) :
    getsliceLoop (deviceRead c dev) block (mkTag m 0x3ff 0) gtag 0 gsize fuel
        (4 + (encode 0xffffffff rs).length) ntag gdiff =
      some (answer gsize g (find (fun k => m.toNat &&& k = m.toNat &&& T)
        (rs.filterMap Record.entry).reverse j)) := by
  induction rs using List.reverseRecOn generalizing fuel ntag gdiff j with
  | nil =>
    have hdsize : (lfsTagDsize ntag).toNat = 4 := by
      rcases hntag with rfl | rfl <;> decide
    have hend : 4 + (encode 0xffffffff []).length < 4 + (lfsTagDsize ntag).toNat := by
      rw [hdsize]
      decide
    unfold getsliceLoop
    rw [if_pos hend]
    rfl
  | append_singleton rs r ih =>
    have hat := at_of_eq hntag
    have hcount : (rs ++ [r]).length = rs.length + 1 := List.length_append
    obtain ⟨fuel, rfl⟩ : ∃ k, fuel = k + 1 := ⟨fuel - 1, by omega⟩
    have hlen := encode_length_snoc 0xffffffff rs r
    have hholds' : Holds dev block.toNat 4 (encode 0xffffffff rs) := by
      rw [encode_snoc, holds_append, holds_append] at hholds
      exact hholds.1.1
    have hr : ProperTag r.tag := hproper r (List.mem_append_right _ (List.mem_singleton.mpr rfl))
    have hrest : ∀ {gdiff : UInt32} {i : Nat}, IsTag (gtag - gdiff) T i S →
        Within 0x3ff (rs.filterMap Record.entry) i →
        getsliceLoop (deviceRead c dev) block (mkTag m 0x3ff 0) gtag 0 gsize fuel
          (4 + (encode 0xffffffff rs).length) (lastPtag 0xffffffff rs &&& 0x7fffffff) gdiff =
        some (answer gsize g (find (fun k => m.toNat &&& k = m.toNat &&& T)
          (rs.filterMap Record.entry).reverse i)) := fun hcur hwithin =>
      ih hholds' (by omega) (fun r hr => hproper r (List.mem_append_left _ hr)) hcur hwithin (.inr rfl)
        (by omega)
    cases hentry : r.entry with
    | none =>
      have htype : 2 ^ 10 ≤ r.type ∧ ¬r.type / 2 ^ 8 = 4 := tagEntry_none hentry
      have hlog : (rs ++ [r]).filterMap Record.entry = rs.filterMap Record.entry := by
        rw [List.filterMap_append, List.filterMap_cons_none hentry, List.filterMap_nil, List.append_nil]
      rw [hlog] at hwithin ⊢
      rw [turn_pass hsel hat htype.1 hcur (fun h => absurd h htype.2) hc hb hholds hfit, hrest hcur hwithin]
    | some e =>
      have hlog : (rs ++ [r]).filterMap Record.entry = rs.filterMap Record.entry ++ [e] := by
        rw [List.filterMap_append, List.filterMap_cons_some hentry, List.filterMap_nil]
      rw [hlog] at hwithin
      rw [hlog, List.reverse_concat]
      cases e with
      | create i =>
        obtain ⟨htype, rfl⟩ : r.type = 0x401 ∧ r.id = i := tagEntry_create hentry
        rcases Nat.lt_trichotomy j r.id with hlt | rfl | hgt
        · rw [turn_pass hsel hat (by omega) hcur (fun _ => hlt) hc hb hholds hfit, find,
            if_neg (Nat.ne_of_lt hlt), if_neg (Nat.lt_asymm hlt)]
          exact hrest hcur (hwithin.snoc (if_pos hlt))
        · have hsize := (hr (show r.type / 2 ^ 8 = 4 by omega)).2
          rw [turn_self hsel hat htype hsize hcur rfl hc hb hholds hfit, find, if_pos rfl]
          rfl
        · have hself : ¬ntag = mkTag LFS_TYPE_CREATE 0 0 ||| (mkTag 0 0x3ff 0 &&& (gtag - gdiff)) := by
            rw [hat.self_iff (by omega) hcur]
            omega
          have hcur' : IsTag (gtag - (gdiff + mkTag 0 (lfsTagSplice ntag) 0)) T (j - 1) S := by
            have hpred : IsTag (gtag - gdiff) T (j - 1 + 1) S := by
              rwa [Nat.sub_add_cancel (by omega)]
            rw [hat.same (by omega), splice_create htype, sub_add_id]
            exact hpred.sub_id
          have hbefore : (Edit.create r.id : Edit Nat Value).before j = some (j - 1) := by
            rw [Edit.before, if_neg (Nat.lt_asymm hgt), if_neg (Nat.ne_of_gt hgt)]
          rw [turn_splice hsel hat (by omega) hcur (Nat.le_of_lt hgt) hcur' hself hc hb hholds hfit, find,
            if_neg (Nat.ne_of_gt hgt), if_pos hgt]
          exact hrest hcur' (hwithin.snoc hbefore)
      | delete i =>
        obtain ⟨htype, rfl⟩ : r.type = 0x4ff ∧ r.id = i := tagEntry_delete hr hentry
        by_cases hle : r.id ≤ j
        · have hself : ¬ntag = mkTag LFS_TYPE_CREATE 0 0 ||| (mkTag 0 0x3ff 0 &&& (gtag - gdiff)) := by
            rw [hat.self_iff (by omega) hcur]
            omega
          have hbefore : (Edit.delete r.id : Edit Nat Value).before j = some (j + 1) :=
            if_neg (Nat.not_lt.mpr hle)
          have hbound := (hwithin.snoc hbefore).lt
          have hcur' : IsTag (gtag - (gdiff + mkTag 0 (lfsTagSplice ntag) 0)) T (j + 1) S := by
            rw [hat.same (by omega), splice_delete htype, sub_add_neg_id]
            exact hcur.add_id (by omega)
          rw [turn_splice hsel hat (by omega) hcur hle hcur' hself hc hb hholds hfit, find, if_pos hle]
          exact hrest hcur' (hwithin.snoc hbefore)
        · rw [turn_pass hsel hat (by omega) hcur (fun _ => Nat.lt_of_not_le hle) hc hb hholds hfit, find,
            if_neg hle]
          exact hrest hcur (hwithin.snoc (if_pos (Nat.lt_of_not_le hle)))
      | put i k v =>
        obtain ⟨htype, rfl, rfl, rfl⟩ : r.type < 2 ^ 10 ∧ r.id = i ∧ r.type = k ∧ r.value = v :=
          tagEntry_put hentry
        rw [turn_put hsel hg hat htype hcur hc hb hholds hfit, find]
        by_cases hmatch : r.id = j ∧ m.toNat &&& r.type = m.toNat &&& T
        · rw [if_pos hmatch, if_pos (by simpa using hmatch)]
        · rw [if_neg hmatch, if_neg (by simpa using hmatch)]
          exact hrest hcur (hwithin.snoc rfl)

end Search

/-! ## A directory -/

/-- The first block of the pair holds these records up to `dir.off`. -/
structure Spans (c : LfsConfig) (dev : Device UInt8) (dir : Mdir) (rs : List Record) : Prop where
  block_lt : dir.pair.1 < c.blockCount
  holds : Holds dev dir.pair.1.toNat 4 (encode 0xffffffff rs)
  off_eq : dir.off = 4 + (encode 0xffffffff rs).length
  fit : dir.off ≤ c.blockSize.toNat
  etag_eq : dir.etag = lastPtag 0xffffffff rs

/-- `dir` is what is known of records that are proper. -/
structure Describes (c : LfsConfig) (dev : Device UInt8) (dir : Mdir) (rs : List Record) : Prop
    extends Spans c dev dir rs where
  proper : ∀ r ∈ rs, ProperTag r.tag

section Directory

variable {c : LfsConfig} {dev : Device UInt8} {dir : Mdir} {rs : List Record} {gstate : Gstate}
  {m gtag : UInt32} {T S g : Nat}

theorem length_le_encode (ptag : UInt32) (rs : List Record) : rs.length ≤ (encode ptag rs).length := by
  induction rs generalizing ptag with
  | nil => exact Nat.zero_le _
  | cons r rs ih =>
    have := ih (nextPtag r.tag)
    simp only [encode, List.length_append, List.length_cons, be32_length]
    omega

theorem Describes.search (h : Describes c dev dir rs) (hc : Workable c) (hsel : Selects m T) (hg : IsTag gtag T g S)
    {gdiff : UInt32} {j : Nat} (hcur : IsTag (gtag - gdiff) T j S)
    (hwithin : Within 0x3ff (logOf rs) j) (gsize : Nat) :
    getsliceLoop (deviceRead c dev) dir.pair.1 (mkTag m 0x3ff 0) gtag 0 gsize dir.off dir.off dir.etag
        gdiff =
      some (answer gsize g ((replay (logOf rs) blank j).find? fun x =>
        decide (m.toNat &&& x.1 = m.toNat &&& T))) := by
  have hfit := h.fit
  have hfuel := length_le_encode 0xffffffff rs
  have hoff := h.off_eq
  have hlen : rs.length ≤ dir.off := by omega
  have hfind := find_reverse (fun k => decide (m.toNat &&& k = m.toNat &&& T)) (logOf rs) j
  rw [← hfind, hoff]
  rw [hoff] at hfit hlen
  exact getsliceLoop_eq hsel hg hc h.block_lt h.holds hfit h.proper hcur hwithin (.inl h.etag_eq) hlen

/-- Two files, each with a name of one byte and two bytes of data. -/
def twoFiles : List Record :=
  [⟨mkTag LFS_TYPE_CREATE 0 0, [], by decide, by decide⟩, ⟨mkTag 1 0 1, [0x61], by decide, by decide⟩,
    ⟨mkTag 0x201 0 2, [1, 2], by decide, by decide⟩,
    ⟨mkTag LFS_TYPE_CREATE 1 0, [], by decide, by decide⟩, ⟨mkTag 1 1 1, [0x62], by decide, by decide⟩,
    ⟨mkTag 0x201 1 2, [3, 4], by decide, by decide⟩,
    ⟨mkTag LFS_TYPE_CRC 0x3ff 4, le32 2670600911, by decide, by decide⟩]

/-- Every block has the revision 1 and these records. -/
def twoFilesDevice : Device UInt8 := fun _ off => (le32 1 ++ encode 0xffffffff twoFiles).getD off 0xff

def twoFilesDir : Mdir where
  pair := (0, 1)
  rev := 1
  off := 42
  etag := mkTag LFS_TYPE_CRC 0x3ff 4
  count := 2
  erased := true
  split := false
  tail := (LFS_BLOCK_NULL, LFS_BLOCK_NULL)

theorem twoFiles_describes : Describes eightBlocks twoFilesDevice twoFilesDir twoFiles where
  block_lt := by decide
  holds := by
    unfold Holds
    decide
  off_eq := by decide
  fit := by decide
  etag_eq := by decide
  proper := by
    unfold ProperTag
    decide

theorem twoFiles_counts : Counts twoFiles 2 := ⟨true, by decide⟩

/-- `lfs_dir_get` finds the newest value that replaying the block gives the entry. -/
theorem lfsDirGet_replay (h : Describes c dev dir rs) (hc : Workable c)
    (hmove : ¬lfsGstateHasmovehere gstate dir.pair)
    (hsel : Selects m T) (hg : IsTag gtag T g S) {n : Nat} (hcount : Counts rs n) (hlt : g < n) :
    lfsDirGet (deviceRead c dev) gstate dir (mkTag m 0x3ff 0) gtag =
      some (answer S g ((replay (logOf rs) blank g).find? fun x =>
        decide (m.toNat &&& x.1 = m.toNat &&& T))) := by
  rw [lfsDirGet, lfsDirGetslice, if_neg (fun hand => hmove (And.left hand)), hg.tagSize]
  exact h.search hc hsel hg (by rwa [UInt32.sub_zero]) (hcount.within hlt) S

theorem lfsDirGet_replay_twoFiles :
    lfsDirGet (deviceRead eightBlocks twoFilesDevice) ⟨0, (0, 0)⟩ twoFilesDir (mkTag 0x700 0x3ff 0)
      (mkTag LFS_TYPE_STRUCT 0 4) = some (.ok (mkTag 0x201 0 2, [1, 2, 0, 0])) := by
  have hmove : ¬lfsGstateHasmovehere ⟨0, (0, 0)⟩ twoFilesDir.pair := by decide
  have hsel : Selects 0x700 0x200 := selects_of (by decide) (by decide) (by decide)
  have hg : IsTag (mkTag LFS_TYPE_STRUCT 0 4) 0x200 0 4 := isTag_iff.mpr (by decide)
  rw [lfsDirGet_replay twoFiles_describes eightBlocks_workable hmove hsel hg twoFiles_counts Nat.two_pos]
  rfl

/-- With the move of entry `i` pending, the directory is to look as if that entry was deleted. The search
gives the value of the entry at `i` itself right, but for every other one the value of a neighbour. -/
theorem lfsDirGet_moved (h : Describes c dev dir rs) (hc : Workable c)
    (hmove : lfsGstateHasmovehere gstate dir.pair)
    (hsel : Selects m T) (hg : IsTag gtag T g S) {i : Nat} (hi : (lfsTagId gstate.tag).toNat = i)
    {n : Nat} (hcount : Counts rs n) (hlt : g + 1 < n) :
    lfsDirGet (deviceRead c dev) gstate dir (mkTag m 0x3ff 0) gtag =
        some (answer S g ((replay (logOf rs) blank (if g ≤ i then g + 1 else g)).find? fun x =>
          decide (m.toNat &&& x.1 = m.toNat &&& T))) ∧
      replay (logOf rs ++ [.delete i]) blank g =
        replay (logOf rs) blank (if g < i then g else g + 1) := by
  constructor
  · have hid : lfsTagId gtag ≤ lfsTagId gstate.tag ↔ g ≤ i := by
      rw [UInt32.le_iff_toNat_le, hg.tagId, hi]
    rw [lfsDirGet, lfsDirGetslice, hg.tagSize]
    simp only [hmove, true_and, hid]
    by_cases hle : g ≤ i
    · have hwithin := hcount.within hlt
      have hsmall := hwithin.lt
      have hcur : IsTag (gtag - (0 - mkTag 0 1 0)) T (g + 1) S := by
        have hneg := sub_add_neg_id gtag 0
        rw [UInt32.sub_zero] at hneg
        have hsame : gtag - (0 - mkTag 0 1 0) = gtag + mkTag 0 1 0 := by
          rw [← hneg]
          rfl
        rw [hsame]
        exact hg.add_id (by omega)
      rw [if_pos hle, if_pos hle]
      exact h.search hc hsel hg hcur hwithin S
    · rw [if_neg hle, if_neg hle]
      exact h.search hc hsel hg (by rwa [UInt32.sub_zero]) (hcount.within (Nat.lt_of_succ_lt hlt)) S
  · rw [replay_append, replay_cons, replay_nil]
    simp only [Edit.apply]
    split <;> rfl

/-- The second file is about to be moved away, and the search for the data of the first one gives its data. -/
theorem lfsDirGet_moved_twoFiles :
    lfsDirGet (deviceRead eightBlocks twoFilesDevice) ⟨mkTag LFS_TYPE_DELETE 1 0, (0, 1)⟩ twoFilesDir
        (mkTag 0x700 0x3ff 0) (mkTag LFS_TYPE_STRUCT 0 4) = some (.ok (mkTag 0x201 0 2, [3, 4, 0, 0])) ∧
      replay (logOf twoFiles ++ [.delete 1]) blank 0 = replay (logOf twoFiles) blank 0 := by
  have hmove : lfsGstateHasmovehere ⟨mkTag LFS_TYPE_DELETE 1 0, (0, 1)⟩ twoFilesDir.pair := by decide
  have hsel : Selects 0x700 0x200 := selects_of (by decide) (by decide) (by decide)
  have hg : IsTag (mkTag LFS_TYPE_STRUCT 0 4) 0x200 0 4 := isTag_iff.mpr (by decide)
  have hi : (lfsTagId (mkTag LFS_TYPE_DELETE 1 0)).toNat = 1 := by decide
  obtain ⟨hrun, hreplay⟩ := lfsDirGet_moved twoFiles_describes eightBlocks_workable hmove hsel hg hi twoFiles_counts Nat.one_lt_two
  refine ⟨?_, hreplay⟩
  rw [hrun]
  rfl

end Directory

end LfsTool
