import LfsTool.Lookup

/-!
# LfsTool.Fetch

`lfs_dir_fetchmatch`, which reads the commits of a metadata block from its revision count on, up to the first
one whose checksum is wrong.

* `fetchTurn`, `fetchScan`: one tag, and the loop over the tags. `lfsDirFetchmatch`: both blocks of a pair.
* `Follows`: a record that the loop accepts after what is before it. `fetchScan_spec`: the loop reads as many
  records as there are.
* `Longest`: what is known of a block is what all of its commits say.
* `lfsDirFetchmatch_longest`: a fetch gives that for one of the blocks, whatever comes after the commits.
-/

namespace LfsTool

open BitCount BlockArray Splices

def lfsScmp (a b : UInt32) : Int := (a - b).toInt32.toInt

/-- What has been read of a commit. -/
structure Scan where
  off : Nat
  ptag : UInt32
  crc : UInt32
  count : UInt16
  tail : Pair
  split : Bool
  besttag : UInt32

/-- What is known from the commits before. `seed` is the one of the file system. -/
structure Found where
  dir : Mdir
  besttag : UInt32
  seed : UInt32

def Found.setErased (f : Found) (erased : Bool) : Found := { f with dir := { f.dir with erased } }

/-- How a turn ends. -/
inductive FetchTurn (τ : Type) where
  | failed (err : Int) (t : τ)
  | stop (f : Found) (t : τ)
  | next (s : Scan) (f : Found) (t : τ)

section Fetch

variable (rd : BdRead) (c : LfsConfig)

/-- The checksum over `k` bytes of data from the `j`-th on. It is true when a read was corrupt, which ends only this loop. -/
def crcData (block : UInt32) (off : Nat) : Nat → Nat → UInt32 → Option (Except Int (UInt32 × Bool))
  | _, 0, crc => some (.ok (crc, false))
  | j, k + 1, crc =>
    match rd c.blockSize.toNat block (add32 off j) 1 with
    | none => none
    | some (.error err) => if err = LFS_ERR_CORRUPT then some (.ok (crc, true)) else some (.error err)
    | some (.ok dat) => crcData block off (j + 1) k (lfsCrc crc dat)

/-- What a tag says about the number of entries, and the entry that was found. -/
def Scan.modify (s : Scan) (tag : UInt32) : Scan :=
  if lfsTagType1 tag = LFS_TYPE_NAME then
    if s.count.toUInt32 ≤ lfsTagId tag then { s with count := (lfsTagId tag + 1).toUInt16 } else s
  else if lfsTagType1 tag = LFS_TYPE_SPLICE then
    let s := { s with count := s.count + (lfsTagSplice tag).toUInt16 }
    if tag = mkTag LFS_TYPE_DELETE 0 0 ||| (mkTag 0 0x3ff 0 &&& s.besttag) then
      { s with besttag := s.besttag ||| 0x80000000 }
    else if s.besttag ≠ 0xffffffff ∧ lfsTagId tag ≤ lfsTagId s.besttag then
      { s with besttag := s.besttag + mkTag 0 (lfsTagSplice tag) 0 }
    else s
  else s

/-- The tail is read whatever the size of its tag. `some none` is for a read that is corrupt. -/
def Scan.readTail (s : Scan) (block : UInt32) (tag : UInt32) : Option (Option Scan) :=
  if lfsTagType1 tag = LFS_TYPE_TAIL then
    let s := { s with split := lfsTagChunk tag &&& 1 ≠ 0 }
    match rd c.blockSize.toNat block (add32 s.off 4) 8 with
    | none => none
    | some (.error err) => if err = LFS_ERR_CORRUPT then some none else some (some s)
    | some (.ok tail) =>
      some (some { s with tail := (lfsFromle32 (tail.take 4), lfsFromle32 (tail.drop 4)) })
  else some (some s)

variable {τ : Type} (fmask ftag : UInt32) (cb : UInt32 → UInt32 → Nat → τ → Option (Int × τ))

def fetchMatch (s : Scan) (f : Found) (tag : UInt32) (t : τ) : Option (FetchTurn τ) :=
  if fmask &&& tag = fmask &&& ftag then
    match cb tag f.dir.pair.1 (add32 s.off 4) t with
    | none => none
    | some (res, t) =>
      if res < 0 then
        if res = LFS_ERR_CORRUPT then some (.stop (f.setErased false) t) else some (.failed res t)
      else if res = 0 then
        some (.next { s with besttag := tag } f t)
      else if res = 2 ∧ lfsTagId tag ≤ lfsTagId s.besttag then
        -- found a greater match, keep track to keep things sorted
        some (.next { s with besttag := tag ||| 0x80000000 } f t)
      else some (.next s f t)
  else some (.next s f t)

def fetchTurn (s : Scan) (f : Found) (t : τ) : Option (FetchTurn τ) :=
  let off := add32 s.off (lfsTagDsize s.ptag).toNat
  let block := f.dir.pair.1
  match rd c.blockSize.toNat block off 4 with
  | none => none
  | some (.error err) =>
    if err = LFS_ERR_CORRUPT then some (.stop (f.setErased false) t) else some (.failed err t)
  | some (.ok bytes) =>
    let crc := lfsCrc s.crc bytes
    let tag := lfsFrombe32 bytes ^^^ s.ptag
    -- next commit not yet programmed or we're not in valid range
    if lfsTagIsvalid tag = false ∨ c.blockSize.toNat < add32 off (lfsTagDsize tag).toNat then
      some (.stop (f.setErased (lfsTagType1 s.ptag = LFS_TYPE_CRC ∧ f.dir.off % c.progSize.toNat = 0)) t)
    else if lfsTagType1 tag = LFS_TYPE_CRC then
      match rd c.blockSize.toNat block (add32 off 4) 4 with
      | none => none
      | some (.error err) =>
        if err = LFS_ERR_CORRUPT then some (.stop (f.setErased false) t) else some (.failed err t)
      | some (.ok dcrc) =>
        if crc ≠ lfsFromle32 dcrc then some (.stop (f.setErased false) t)
        else
          -- reset the next bit if we need to
          let ptag := tag ^^^ ((lfsTagChunk tag &&& 1) <<< 31)
          let dir := { f.dir with
            off := add32 off (lfsTagDsize tag).toNat
            etag := ptag
            count := s.count
            tail := s.tail
            split := s.split }
          some (.next { s with off, ptag, crc := 0xffffffff } ⟨dir, s.besttag, f.seed ^^^ crc⟩ t)
    else
      match crcData rd c block off 4 ((lfsTagDsize tag).toNat - 4) crc with
      | none => none
      | some (.error err) => some (.failed err t)
      | some (.ok (crc, corrupt)) =>
        let f := if corrupt then f.setErased false else f
        match Scan.readTail rd c (Scan.modify { s with off, ptag := tag, crc } tag) block tag with
        | none => none
        | some none => some (.stop (f.setErased false) t)
        | some (some s) => fetchMatch fmask ftag cb s f tag t

/-- The loop over the tags. Each turn goes on by four bytes at least. -/
def fetchScan : Nat → Scan → Found → τ → Option (Except Int Found × τ)
  | fuel, s, f, t =>
    match fetchTurn rd c fmask ftag cb s f t with
    | none => none
    | some (.failed err t) => some (.error err, t)
    | some (.stop f t) => some (.ok f, t)
    | some (.next s f t) =>
      match fuel with
      | 0 => none
      | fuel + 1 => fetchScan fuel s f t

def fetchBlock (f : Found) (t : τ) : Option (Except Int Found × τ) :=
  fetchScan rd c fmask ftag cb c.blockSize.toNat
    ⟨0, LFS_BLOCK_NULL, lfsCrc 0xffffffff (le32 f.dir.rev), 0, (LFS_BLOCK_NULL, LFS_BLOCK_NULL), false, f.besttag⟩
    f t

/-- A revision count, which is 0 when it cannot be read, and whether it was read. -/
def fetchRev (block : UInt32) : Option (Except Int (UInt32 × Bool)) :=
  match rd 4 block 0 4 with
  | none => none
  | some (.error err) => if err ≠ LFS_ERR_CORRUPT then some (.error err) else some (.ok (0, false))
  | some (.ok rev) => some (.ok (lfsFromle32 rev, true))

def fetchAnswer (gstate : Gstate) (f : Found) : Except Int UInt32 × UInt32 :=
  let besttag :=
    -- synthetic move
    if lfsGstateHasmovehere gstate f.dir.pair then
      if lfsTagId gstate.tag = lfsTagId f.besttag then f.besttag ||| 0x80000000
      else if f.besttag ≠ 0xffffffff ∧ lfsTagId gstate.tag < lfsTagId f.besttag then f.besttag - mkTag 0 1 0
      else f.besttag
    else f.besttag
  let id := min (lfsTagId besttag) f.dir.count.toUInt32
  if lfsTagIsvalid besttag then (.ok besttag, id)
  else if lfsTagId besttag < f.dir.count.toUInt32 then (.error LFS_ERR_NOENT, id)
  else (.ok 0, id)

/-- The scans of both blocks, where `rev` is the revision of the second one. -/
def fetchBlocks (gstate : Gstate) (f : Found) (rev : UInt32) (t : τ) :
    Option (Except Int (Found × Except Int UInt32 × UInt32) × τ) :=
  match fetchBlock rd c fmask ftag cb f t with
  | none => none
  | some (.error err, t) => some (.error err, t)
  | some (.ok f, t) =>
    if 0 < f.dir.off then some (.ok (f, fetchAnswer gstate f), t)
    else
      let dir := { f.dir with pair := lfsPairSwap f.dir.pair, rev }
      match fetchBlock rd c fmask ftag cb { f with dir } t with
      | none => none
      | some (.error err, t) => some (.error err, t)
      | some (.ok f, t) =>
        if 0 < f.dir.off then some (.ok (f, fetchAnswer gstate f), t)
        else some (.error LFS_ERR_CORRUPT, t)

/-- `lfs_dir_fetchmatch`, with the directory, the seed and the id. An assertion that fails in `cb` is
`none`. -/
def lfsDirFetchmatch (gstate : Gstate) (dir : Mdir) (pair : Pair) (seed : UInt32) (t : τ) :
    Option (Except Int (Found × Except Int UInt32 × UInt32) × τ) :=
  match fetchRev rd pair.1 with
  | none => none
  | some (.error err) => some (.error err, t)
  | some (.ok (rev₀, _)) =>
    match fetchRev rd pair.2 with
    | none => none
    | some (.error err) => some (.error err, t)
    | some (.ok (rev₁, ok)) =>
      if ok ∧ 0 < lfsScmp rev₁ rev₀ then
        fetchBlocks rd c fmask ftag cb gstate
          ⟨{ dir with pair := (pair.2, pair.1), rev := rev₁, off := 0 }, 0xffffffff, seed⟩ rev₀ t
      else
        fetchBlocks rd c fmask ftag cb gstate
          ⟨{ dir with pair, rev := rev₀, off := 0 }, 0xffffffff, seed⟩ rev₁ t

end Fetch

/-! ## What follows -/

/-- What tags say about the block as a whole. -/
structure Summary where
  count : UInt16
  tail : Pair
  split : Bool

def Summary.start : Summary := ⟨0, (LFS_BLOCK_NULL, LFS_BLOCK_NULL), false⟩

def Scan.summary (s : Scan) : Summary := ⟨s.count, s.tail, s.split⟩

def Mdir.summary (dir : Mdir) : Summary := ⟨dir.count, dir.tail, dir.split⟩

section Follow

variable (dev : Device UInt8) (block : UInt32)

/-- What the tag at `off` changes. -/
def Summary.step (m : Summary) (off : Nat) (tag : UInt32) : Summary where
  count :=
    if lfsTagType1 tag = LFS_TYPE_NAME then
      if m.count.toUInt32 ≤ lfsTagId tag then (lfsTagId tag + 1).toUInt16 else m.count
    else if lfsTagType1 tag = LFS_TYPE_SPLICE then m.count + (lfsTagSplice tag).toUInt16
    else m.count
  tail :=
    if lfsTagType1 tag = LFS_TYPE_TAIL then
      (lfsFromle32 (dev.read block.toNat (off + 4) 4), lfsFromle32 (dev.read block.toNat (off + 8) 4))
    else m.tail
  split := if lfsTagType1 tag = LFS_TYPE_TAIL then lfsTagChunk tag &&& 1 ≠ 0 else m.split

def summarize : Nat → Summary → List Record → Summary
  | _, m, [] => m
  | off, m, r :: rs => summarize (off + (lfsTagDsize r.tag).toNat) (m.step dev block off r.tag) rs

def nextCrc (crc ptag : UInt32) (r : Record) : UInt32 :=
  if lfsTagType1 r.tag = LFS_TYPE_CRC then 0xffffffff else lfsCrc crc (be32 (r.tag ^^^ ptag) ++ r.data)

def lastCrc : UInt32 → UInt32 → List Record → UInt32
  | crc, _, [] => crc
  | crc, ptag, r :: rs => lastCrc (nextCrc crc ptag r) (nextPtag r.tag) rs

/-- A record that the scan accepts at `off`, with what is before it. -/
structure Follows (c : LfsConfig) (off : Nat) (crc ptag : UInt32) (r : Record) : Prop where
  holds : Holds dev block.toNat off (be32 (r.tag ^^^ ptag) ++ r.data)
  fit : off + (lfsTagDsize r.tag).toNat ≤ c.blockSize.toNat
  sum : lfsTagType1 r.tag = LFS_TYPE_CRC → off + 8 ≤ c.blockSize.toNat ∧
    dev.read block.toNat (off + 4) 4 = le32 (lfsCrc crc (be32 (r.tag ^^^ ptag)))
  tail : lfsTagType1 r.tag = LFS_TYPE_TAIL → off + 12 ≤ c.blockSize.toNat

inductive FollowAll (c : LfsConfig) : Nat → UInt32 → UInt32 → List Record → Prop where
  | nil (off : Nat) (crc ptag : UInt32) : FollowAll c off crc ptag []
  | cons {off : Nat} {crc ptag : UInt32} {r : Record} {rs : List Record} (h : Follows dev block c off crc ptag r)
      (hrest : FollowAll c (off + (lfsTagDsize r.tag).toNat) (nextCrc crc ptag r) (nextPtag r.tag) rs) :
      FollowAll c off crc ptag (r :: rs)

end Follow

section Turn

variable {c : LfsConfig} {dev : Device UInt8} {s : Scan} {f : Found} {fmask ftag : UInt32} {τ : Type}
  {cb : UInt32 → UInt32 → Nat → τ → Option (Int × τ)} {t : τ} {off : Nat} {block ptag crc : UInt32}
  {r r' : Record} {rs rs' : List Record}

/-- The callback does not fail on a tag if it is asked. -/
def QuietAt (fmask ftag : UInt32) (cb : UInt32 → UInt32 → Nat → τ → Option (Int × τ)) (tag block : UInt32)
    (off : Nat) : Prop :=
  fmask &&& tag = fmask &&& ftag → ∀ t, ∃ res t', cb tag block off t = some (res, t') ∧ 0 ≤ res

def adjustBest (best tag : UInt32) : UInt32 :=
  if lfsTagType1 tag = LFS_TYPE_SPLICE then
    if tag = mkTag LFS_TYPE_DELETE 0 0 ||| (mkTag 0 0x3ff 0 &&& best) then best ||| 0x80000000
    else if best ≠ 0xffffffff ∧ lfsTagId tag ≤ lfsTagId best then best + mkTag 0 (lfsTagSplice tag) 0
    else best
  else best

/-- The tag that was found after a tag for which the callback answers `res`. -/
def bestStep (fmask ftag : UInt32) (res : Int) (best tag : UInt32) : UInt32 :=
  if lfsTagType1 tag = LFS_TYPE_CRC then best
  else if fmask &&& tag = fmask &&& ftag then
    if res = 0 then tag
    else if res = 2 ∧ lfsTagId tag ≤ lfsTagId (adjustBest best tag) then tag ||| 0x80000000
    else adjustBest best tag
  else adjustBest best tag

def AnswersAt (fmask ftag : UInt32) (cb : UInt32 → UInt32 → Nat → τ → Option (Int × τ)) (tag block : UInt32)
    (off : Nat) (res : Int) : Prop :=
  fmask &&& tag = fmask &&& ftag → ∀ t, ∃ t', cb tag block off t = some (res, t')

/-- The reads of the scan have the size of a block for a hint. -/
theorem scan_read (hc : Workable c) (hb : block < c.blockCount) {size : Nat}
    (hfit : off + size ≤ c.blockSize.toNat) :
    deviceRead c dev c.blockSize.toNat block off size = some (.ok (dev.read block.toNat off size)) :=
  deviceRead_ok hc ⟨blockSize_pos hc.toLfsInit, Nat.le_refl _⟩ hb hfit

theorem scan_read_corrupt (hb : block < c.blockCount) {size : Nat} (hfits : off + size < 2 ^ 32)
    (hoff : c.blockSize.toNat < off + size) :
    deviceRead c dev c.blockSize.toNat block off size = some (.error LFS_ERR_CORRUPT) :=
  deviceRead_corrupt (ne_null_of_lt hb) hfits hoff

theorem crcData_eq (dev : Device UInt8) (hc : Workable c) (hb : block < c.blockCount) {j k : Nat}
    (hfit : off + j + k ≤ c.blockSize.toNat) (crc : UInt32) :
    crcData (deviceRead c dev) c block off j k crc =
      some (.ok (lfsCrc crc (dev.read block.toNat (off + j) k), false)) := by
  induction k generalizing j crc with
  | zero => rfl
  | succ k ih =>
    rw [crcData, hc.add32_eq (show off + j ≤ c.blockSize.toNat by omega), scan_read hc hb (by omega)]
    simp only
    rw [ih (by omega), ← lfsCrc_append, Nat.add_comm k, Device.read_add, Nat.add_assoc off]

theorem Scan.modify_frame (s : Scan) (tag : UInt32) :
    (s.modify tag).off = s.off ∧ (s.modify tag).ptag = s.ptag ∧ (s.modify tag).crc = s.crc ∧
      (s.modify tag).tail = s.tail ∧ (s.modify tag).split = s.split := by
  unfold Scan.modify
  split
  · split <;> exact ⟨rfl, rfl, rfl, rfl, rfl⟩
  · split
    · simp only
      split
      · exact ⟨rfl, rfl, rfl, rfl, rfl⟩
      · split <;> exact ⟨rfl, rfl, rfl, rfl, rfl⟩
    · exact ⟨rfl, rfl, rfl, rfl, rfl⟩

theorem Scan.modify_count (s : Scan) (tag : UInt32) :
    (s.modify tag).count =
      if lfsTagType1 tag = LFS_TYPE_NAME then
        if s.count.toUInt32 ≤ lfsTagId tag then (lfsTagId tag + 1).toUInt16 else s.count
      else if lfsTagType1 tag = LFS_TYPE_SPLICE then s.count + (lfsTagSplice tag).toUInt16
      else s.count := by
  unfold Scan.modify
  split
  · split <;> rfl
  · split
    · simp only
      split
      · rfl
      · split <;> rfl
    · rfl

theorem Scan.modify_best (s : Scan) (tag : UInt32) : (s.modify tag).besttag = adjustBest s.besttag tag := by
  unfold Scan.modify adjustBest
  by_cases hname : lfsTagType1 tag = LFS_TYPE_NAME
  · have hsplice : ¬lfsTagType1 tag = LFS_TYPE_SPLICE := by
      rw [hname]
      decide
    rw [if_pos hname, if_neg hsplice]
    split <;> rfl
  · rw [if_neg hname]
    split
    · simp only
      split
      · rfl
      · split <;> rfl
    · rfl

theorem Scan.readTail_eq (s : Scan) (hc : Workable c) (hb : block < c.blockCount) {tag : UInt32}
    (hroom : lfsTagType1 tag = LFS_TYPE_TAIL → s.off + 12 ≤ c.blockSize.toNat) :
    s.readTail (deviceRead c dev) c block tag = some (some { s with
      tail := if lfsTagType1 tag = LFS_TYPE_TAIL then
          (lfsFromle32 (dev.read block.toNat (s.off + 4) 4), lfsFromle32 (dev.read block.toNat (s.off + 8) 4))
        else s.tail
      split := if lfsTagType1 tag = LFS_TYPE_TAIL then lfsTagChunk tag &&& 1 ≠ 0 else s.split }) := by
  unfold Scan.readTail
  by_cases htail : lfsTagType1 tag = LFS_TYPE_TAIL
  · have hfit := hroom htail
    have hoff : add32 s.off 4 = s.off + 4 := hc.add32_eq (by omega)
    have hread : deviceRead c dev c.blockSize.toNat block (s.off + 4) 8 =
        some (.ok (dev.read block.toNat (s.off + 4) 8)) := scan_read hc hb (by omega)
    have hsplit : dev.read block.toNat (s.off + 4) 8 =
        dev.read block.toNat (s.off + 4) 4 ++ dev.read block.toNat (s.off + 8) 4 :=
      dev.read_add block.toNat (s.off + 4) 4 4
    have hlen : (dev.read block.toNat (s.off + 4) 4).length = 4 := Device.read_length _ _ _ _
    simp only [if_pos htail, hoff, hread, hsplit, List.take_left' hlen, List.drop_left' hlen]
  · simp only [if_neg htail]

theorem Scan.read_step (s : Scan) (dev : Device UInt8) (hc : Workable c) (hb : block < c.blockCount)
    {tag : UInt32} (hroom : lfsTagType1 tag = LFS_TYPE_TAIL → s.off + 12 ≤ c.blockSize.toNat) :
    ∃ s', Scan.readTail (deviceRead c dev) c (s.modify tag) block tag = some (some s') ∧
      s'.off = s.off ∧ s'.ptag = s.ptag ∧ s'.crc = s.crc ∧ s'.summary = s.summary.step dev block s.off tag ∧
      s'.besttag = adjustBest s.besttag tag := by
  obtain ⟨hoff, hptag, hcrc, htail, hsplit⟩ := s.modify_frame tag
  have hcount := s.modify_count tag
  have hroom' : lfsTagType1 tag = LFS_TYPE_TAIL → (s.modify tag).off + 12 ≤ c.blockSize.toNat := by rwa [hoff]
  refine ⟨_, (s.modify tag).readTail_eq hc hb hroom', hoff, hptag, hcrc, ?_, s.modify_best tag⟩
  simp only [Scan.summary, Summary.step, hoff, hcount, htail, hsplit]
  rfl

theorem fetchMatch_quiet {tag : UInt32} {s : Scan} {f : Found}
    (hquiet : QuietAt fmask ftag cb tag f.dir.pair.1 (add32 s.off 4)) (t : τ) :
    ∃ besttag t', fetchMatch fmask ftag cb s f tag t = some (.next { s with besttag } f t') ∧
      ∀ res, AnswersAt fmask ftag cb tag f.dir.pair.1 (add32 s.off 4) res →
        besttag = if fmask &&& tag = fmask &&& ftag then
            if res = 0 then tag
            else if res = 2 ∧ lfsTagId tag ≤ lfsTagId s.besttag then tag ||| 0x80000000 else s.besttag
          else s.besttag := by
  unfold fetchMatch
  by_cases hmatch : fmask &&& tag = fmask &&& ftag
  · obtain ⟨res, t', hres, hpos⟩ := hquiet hmatch t
    have hsame : ∀ res', AnswersAt fmask ftag cb tag f.dir.pair.1 (add32 s.off 4) res' → res' = res := by
      intro res' hanswers
      obtain ⟨t'', hres'⟩ := hanswers hmatch t
      rw [hres] at hres'
      cases hres'
      rfl
    simp only [if_pos hmatch, hres, if_neg (Int.not_lt.mpr hpos)]
    by_cases hzero : res = 0
    · rw [if_pos hzero]
      refine ⟨tag, t', rfl, fun res' hanswers => ?_⟩
      rw [hsame res' hanswers, if_pos hzero]
    · rw [if_neg hzero]
      by_cases hgreater : res = 2 ∧ lfsTagId tag ≤ lfsTagId s.besttag
      · rw [if_pos hgreater]
        refine ⟨tag ||| 0x80000000, t', rfl, fun res' hanswers => ?_⟩
        rw [hsame res' hanswers, if_neg hzero, if_pos hgreater]
      · rw [if_neg hgreater]
        refine ⟨s.besttag, t', rfl, fun res' hanswers => ?_⟩
        rw [hsame res' hanswers, if_neg hzero, if_neg hgreater]
  · simp only [if_neg hmatch]
    exact ⟨s.besttag, t, rfl, fun _ _ => rfl⟩

def Found.commit (f : Found) (m : Summary) (off : Nat) (etag besttag crc : UInt32) : Found :=
  ⟨{ f.dir with off, etag, count := m.count, tail := m.tail, split := m.split }, besttag, f.seed ^^^ crc⟩

theorem fetchTurn_next (hc : Workable c) (hb : f.dir.pair.1 < c.blockCount)
    (hquiet : QuietAt fmask ftag cb r.tag f.dir.pair.1 (off + 4))
    (hoff : add32 s.off (lfsTagDsize s.ptag).toNat = off)
    (h : Follows dev f.dir.pair.1 c off s.crc s.ptag r) :
    ∃ s' f' t', fetchTurn (deviceRead c dev) c fmask ftag cb s f t = some (.next s' f' t') ∧
      s'.off = off ∧ s'.ptag = nextPtag r.tag ∧ s'.crc = nextCrc s.crc s.ptag r ∧
      s'.summary = s.summary.step dev f.dir.pair.1 off r.tag ∧
      (∀ res, AnswersAt fmask ftag cb r.tag f.dir.pair.1 (off + 4) res →
        s'.besttag = bestStep fmask ftag res s.besttag r.tag) ∧
      if lfsTagType1 r.tag = LFS_TYPE_CRC then
        ∃ crc, f' = f.commit s'.summary (off + (lfsTagDsize r.tag).toNat) (nextPtag r.tag) s'.besttag crc
      else f' = f := by
  have hlen := r.length
  have hfit := h.fit
  obtain ⟨htag, hdata⟩ := holds_append.mp h.holds
  have hread : deviceRead c dev c.blockSize.toNat f.dir.pair.1 off 4 =
      some (.ok (be32 (r.tag ^^^ s.ptag))) := by
    have hword : dev.read f.dir.pair.1.toNat off 4 = be32 (r.tag ^^^ s.ptag) := htag
    rw [scan_read hc hb (by omega), hword]
  have hend : add32 off (lfsTagDsize r.tag).toNat = off + (lfsTagDsize r.tag).toNat := hc.add32_eq hfit
  have hoff' : add32 off 4 = off + 4 := hc.add32_eq (by omega)
  have hxor : lfsFrombe32 (be32 (r.tag ^^^ s.ptag)) ^^^ s.ptag = r.tag := by
    rw [lfsFrombe32_be32, UInt32.xor_assoc, UInt32.xor_self, UInt32.xor_zero]
  have hgo : ¬(lfsTagIsvalid r.tag = false ∨ c.blockSize.toNat < add32 off (lfsTagDsize r.tag).toNat) := by
    rw [r.valid, hend]
    simp only [Bool.true_eq_false, false_or]
    omega
  unfold fetchTurn
  simp only [hoff, hread, hxor, if_neg hgo]
  by_cases hcrc : lfsTagType1 r.tag = LFS_TYPE_CRC
  · obtain ⟨hroom, hsum⟩ := h.sum hcrc
    have hdcrc : deviceRead c dev c.blockSize.toNat f.dir.pair.1 (off + 4) 4 =
        some (.ok (le32 (lfsCrc s.crc (be32 (r.tag ^^^ s.ptag))))) := by
      rw [← hsum]
      exact scan_read hc hb (by omega)
    have hname : ¬lfsTagType1 r.tag = LFS_TYPE_NAME := by
      rw [hcrc]
      decide
    have hsplice : ¬lfsTagType1 r.tag = LFS_TYPE_SPLICE := by
      rw [hcrc]
      decide
    have htail : ¬lfsTagType1 r.tag = LFS_TYPE_TAIL := by
      rw [hcrc]
      decide
    have hptag : r.tag ^^^ ((lfsTagChunk r.tag &&& 1) <<< 31) = nextPtag r.tag := (if_pos hcrc).symm
    simp only [if_pos hcrc, hoff', hend, hdcrc, lfsFromle32_le32, ne_eq, not_true_eq_false, if_false, hptag]
    refine ⟨_, _, _, rfl, rfl, rfl, (if_pos hcrc).symm, ?_, fun _ _ => (if_pos hcrc).symm, _, rfl⟩
    simp only [Scan.summary, Summary.step, if_neg hname, if_neg hsplice, if_neg htail]
  · have hdfit : off + 4 + ((lfsTagDsize r.tag).toNat - 4) ≤ c.blockSize.toNat := by omega
    have hcrcData := crcData_eq dev hc hb hdfit (lfsCrc s.crc (be32 (r.tag ^^^ s.ptag)))
    have hbytes : dev.read f.dir.pair.1.toNat (off + 4) ((lfsTagDsize r.tag).toNat - 4) = r.data := by
      rw [show (lfsTagDsize r.tag).toNat - 4 = r.data.length by omega]
      exact hdata
    rw [hbytes, ← lfsCrc_append] at hcrcData
    have hptag : nextPtag r.tag = r.tag := if_neg hcrc
    have hnext : nextCrc s.crc s.ptag r = lfsCrc s.crc (be32 (r.tag ^^^ s.ptag) ++ r.data) := if_neg hcrc
    simp only [if_neg hcrc, hcrcData, Bool.false_eq_true, if_false, hptag, hnext]
    obtain ⟨s', hs', hsoff, hptag', hcrc', hsummary, hbest⟩ := Scan.read_step
      { s with off, ptag := r.tag, crc := lfsCrc s.crc (be32 (r.tag ^^^ s.ptag) ++ r.data) } dev hc hb h.tail
    dsimp only at hsoff hptag' hcrc' hsummary hbest
    simp only [hs']
    obtain ⟨besttag, t', hmatch, hbest'⟩ := fetchMatch_quiet (s := s') (by rwa [hsoff, hoff']) t
    refine ⟨_, f, t', hmatch, hsoff, hptag', hcrc', hsummary, fun res hanswers => ?_, rfl⟩
    rw [bestStep, if_neg hcrc, ← hbest]
    exact hbest' res (by rwa [hsoff, hoff'])

/-- The record that begins at `off`, with the tag that is there. -/
def recordAt (dev : Device UInt8) (block : UInt32) (off : Nat) (tag : UInt32) (valid : lfsTagIsvalid tag = true) :
    Record where
  tag
  data := dev.read block.toNat (off + 4) ((lfsTagDsize tag).toNat - 4)
  valid
  length := by
    have hdsize := lfsTagDsize_toNat tag
    rw [Device.read_length]
    omega

theorem recordAt_holds {tag : UInt32} (valid : lfsTagIsvalid tag = true)
    (hword : dev.read block.toNat off 4 = be32 (tag ^^^ ptag)) :
    Holds dev block.toNat off (be32 (tag ^^^ ptag) ++ (recordAt dev block off tag valid).data) := by
  refine holds_append.mpr ⟨hword, ?_⟩
  rw [be32_length, Holds, recordAt, Device.read_length]

theorem fetchTurn_stop (hc : Workable c) (hb : f.dir.pair.1 < c.blockCount)
    (hoff : add32 s.off (lfsTagDsize s.ptag).toNat = off) (hstart : off ≤ c.blockSize.toNat)
    (h : ∀ r, ¬Follows dev f.dir.pair.1 c off s.crc s.ptag r) :
    ∃ erased, fetchTurn (deviceRead c dev) c fmask ftag cb s f t = some (.stop (f.setErased erased) t) := by
  have hsmall := hc.small
  unfold fetchTurn
  simp only [hoff]
  by_cases hroom : off + 4 ≤ c.blockSize.toNat
  · have hread : deviceRead c dev c.blockSize.toNat f.dir.pair.1 off 4 =
        some (.ok (dev.read f.dir.pair.1.toNat off 4)) := scan_read hc hb hroom
    have hoff' : add32 off 4 = off + 4 := hc.add32_eq hroom
    have hlen : (dev.read f.dir.pair.1.toNat off 4).length = 4 := Device.read_length _ _ _ _
    simp only [hread]
    generalize htag : lfsFrombe32 (dev.read f.dir.pair.1.toNat off 4) ^^^ s.ptag = tag
    have hword : dev.read f.dir.pair.1.toNat off 4 = be32 (tag ^^^ s.ptag) := by
      rw [← htag, UInt32.xor_assoc, UInt32.xor_self, UInt32.xor_zero, be32_lfsFrombe32 hlen]
    have hdsize := lfsTagDsize_toNat tag
    have hdlt : (lfsTagDsize tag).toNat < 2 ^ 11 := by
      rw [hdsize]
      split <;> omega
    have hend : add32 off (lfsTagDsize tag).toNat = off + (lfsTagDsize tag).toNat :=
      add32_eq (show off + (lfsTagDsize tag).toNat < 2 ^ 32 by omega)
    rw [hend]
    by_cases hgo : lfsTagIsvalid tag = false ∨ c.blockSize.toNat < off + (lfsTagDsize tag).toNat
    · rw [if_pos hgo]
      exact ⟨_, rfl⟩
    · obtain ⟨hvalid, hfit⟩ := not_or.mp hgo
      rw [Bool.not_eq_false] at hvalid
      have hnot : ¬((lfsTagType1 tag = LFS_TYPE_CRC → off + 8 ≤ c.blockSize.toNat ∧
            dev.read f.dir.pair.1.toNat (off + 4) 4 = le32 (lfsCrc s.crc (be32 (tag ^^^ s.ptag)))) ∧
          (lfsTagType1 tag = LFS_TYPE_TAIL → off + 12 ≤ c.blockSize.toNat)) := fun hand =>
        h (recordAt dev f.dir.pair.1 off tag hvalid)
          ⟨recordAt_holds hvalid hword, Nat.le_of_not_lt hfit, hand.1, hand.2⟩
      rw [if_neg hgo, hword]
      by_cases hcrc : lfsTagType1 tag = LFS_TYPE_CRC
      · rw [if_pos hcrc]
        have htail : lfsTagType1 tag = LFS_TYPE_TAIL → off + 12 ≤ c.blockSize.toNat := fun heq => by
          rw [hcrc] at heq
          cases heq
        by_cases hroom' : off + 8 ≤ c.blockSize.toNat
        · have hdcrc : deviceRead c dev c.blockSize.toNat f.dir.pair.1 (off + 4) 4 =
              some (.ok (dev.read f.dir.pair.1.toNat (off + 4) 4)) := scan_read hc hb hroom'
          have hne : lfsCrc s.crc (be32 (tag ^^^ s.ptag)) ≠
              lfsFromle32 (dev.read f.dir.pair.1.toNat (off + 4) 4) := by
            intro heq
            refine hnot ⟨fun _ => ⟨hroom', ?_⟩, htail⟩
            rw [heq, le32_lfsFromle32 (Device.read_length _ _ _ _)]
          simp only [hoff', hdcrc, if_pos hne]
          exact ⟨_, rfl⟩
        · have hdcrc : deviceRead c dev c.blockSize.toNat f.dir.pair.1 (off + 4) 4 =
              some (.error LFS_ERR_CORRUPT) := scan_read_corrupt hb (by omega) (by omega)
          simp only [hoff', hdcrc, if_true]
          exact ⟨_, rfl⟩
      · rw [if_neg hcrc]
        obtain ⟨htail, hroom'⟩ : lfsTagType1 tag = LFS_TYPE_TAIL ∧ ¬off + 12 ≤ c.blockSize.toNat := by
          by_contra hnone
          exact hnot ⟨fun heq => absurd heq hcrc, fun htail => by
            by_contra hroom'
            exact hnone ⟨htail, hroom'⟩⟩
        rw [crcData_eq dev hc hb (by omega)]
        simp only [Bool.false_eq_true, if_false]
        generalize hm : Scan.modify { s with
          off, ptag := tag, crc := lfsCrc (lfsCrc s.crc (be32 (tag ^^^ s.ptag)))
            (dev.read f.dir.pair.1.toNat (off + 4) ((lfsTagDsize tag).toNat - 4)) } tag = m
        have hmoff : m.off = off := by
          rw [← hm]
          exact (Scan.modify_frame _ tag).1
        have hread : deviceRead c dev c.blockSize.toNat f.dir.pair.1 (off + 4) 8 =
            some (.error LFS_ERR_CORRUPT) := scan_read_corrupt hb (by omega) (by omega)
        simp only [Scan.readTail, if_pos htail, hmoff, hoff', hread, if_true]
        exact ⟨_, rfl⟩
  · have hread : deviceRead c dev c.blockSize.toNat f.dir.pair.1 off 4 = some (.error LFS_ERR_CORRUPT) :=
      scan_read_corrupt hb (by omega) (by omega)
    simp only [hread, if_true]
    exact ⟨_, rfl⟩

end Turn

/-! ## The scan -/

section Lists

variable {c : LfsConfig} {dev : Device UInt8} {block crc ptag : UInt32} {off : Nat} {r r' : Record}
  {rs rs' : List Record}

theorem lastCrc_append (crc ptag : UInt32) (rs rs' : List Record) :
    lastCrc crc ptag (rs ++ rs') = lastCrc (lastCrc crc ptag rs) (lastPtag ptag rs) rs' := by
  induction rs generalizing crc ptag with
  | nil => rfl
  | cons r rs ih => exact ih (nextCrc crc ptag r) (nextPtag r.tag)

theorem encode_length_cons (ptag : UInt32) (r : Record) (rs : List Record) :
    (encode ptag (r :: rs)).length = (lfsTagDsize r.tag).toNat + (encode (nextPtag r.tag) rs).length := by
  have hlen := r.length
  simp only [encode, List.length_append, be32_length]
  omega

theorem summarize_append (off : Nat) (ptag : UInt32) (m : Summary) (rs rs' : List Record) :
    summarize dev block off m (rs ++ rs') =
      summarize dev block (off + (encode ptag rs).length) (summarize dev block off m rs) rs' := by
  induction rs generalizing off ptag m with
  | nil => rfl
  | cons r rs ih =>
    rw [List.cons_append, summarize, ih _ (nextPtag r.tag), encode_length_cons, Nat.add_assoc]
    rfl

theorem followAll_append : FollowAll dev block c off crc ptag (rs ++ rs') ↔
    FollowAll dev block c off crc ptag rs ∧
      FollowAll dev block c (off + (encode ptag rs).length) (lastCrc crc ptag rs) (lastPtag ptag rs) rs' := by
  induction rs generalizing off crc ptag with
  | nil => exact ⟨fun h => ⟨.nil _ _ _, h⟩, fun h => h.2⟩
  | cons r rs ih =>
    rw [List.cons_append, encode_length_cons, ← Nat.add_assoc]
    constructor
    · intro h
      cases h with
      | cons hr hrest =>
        obtain ⟨hpre, hpost⟩ := ih.mp hrest
        exact ⟨.cons hr hpre, hpost⟩
    · rintro ⟨hpre, hpost⟩
      cases hpre with
      | cons hr hrest => exact .cons hr (ih.mpr ⟨hrest, hpost⟩)

theorem FollowAll.holds (h : FollowAll dev block c off crc ptag rs) :
    Holds dev block.toNat off (encode ptag rs) := by
  induction h with
  | nil => rfl
  | @cons off crc ptag r rs hr _ ih =>
    have hlen := r.length
    refine holds_append.mpr ⟨hr.holds, ?_⟩
    rw [List.length_append, be32_length, show 4 + r.data.length = (lfsTagDsize r.tag).toNat by omega]
    exact ih

theorem FollowAll.fit (h : FollowAll dev block c off crc ptag rs) (hoff : off ≤ c.blockSize.toNat) :
    off + (encode ptag rs).length ≤ c.blockSize.toNat := by
  induction h with
  | nil => exact hoff
  | cons hr _ ih =>
    rw [encode_length_cons, ← Nat.add_assoc]
    exact ih hr.fit

theorem Follows.tag_eq (h : Follows dev block c off crc ptag r) :
    r.tag = lfsFrombe32 (dev.read block.toNat off 4) ^^^ ptag := by
  have hholds := (holds_append.mp h.holds).1
  unfold Holds at hholds
  rw [be32_length] at hholds
  rw [hholds, lfsFrombe32_be32, UInt32.xor_assoc, UInt32.xor_self, UInt32.xor_zero]

theorem not_follows_of_invalid
    (h : lfsTagIsvalid (lfsFrombe32 (dev.read block.toNat off 4) ^^^ ptag) = false) (r : Record) :
    ¬Follows dev block c off crc ptag r := by
  intro hr
  have hvalid := r.valid
  rw [hr.tag_eq, h] at hvalid
  cases hvalid

theorem Follows.unique (h : Follows dev block c off crc ptag r) (h' : Follows dev block c off crc ptag r') :
    r = r' := by
  have hlen := r.length
  have hlen' := r'.length
  have heq : r.tag = r'.tag := h.tag_eq.trans h'.tag_eq.symm
  have hdata := (holds_append.mp h.holds).2
  have hdata' := (holds_append.mp h'.holds).2
  rw [Holds, be32_length] at hdata hdata'
  rw [show r'.data.length = r.data.length by rw [heq] at hlen; omega] at hdata'
  have hdatas : r.data = r'.data := hdata.symm.trans hdata'
  obtain ⟨tag, data, valid, length⟩ := r
  obtain ⟨tag', data', valid', length'⟩ := r'
  cases heq
  cases hdatas
  rfl

theorem FollowAll.prefix_of_stuck (h : FollowAll dev block c off crc ptag rs)
    (h' : FollowAll dev block c off crc ptag rs')
    (hstuck : ∀ r, ¬Follows dev block c (off + (encode ptag rs').length) (lastCrc crc ptag rs')
      (lastPtag ptag rs') r) :
    rs <+: rs' := by
  induction h generalizing rs' with
  | nil => exact List.nil_prefix
  | @cons off crc ptag r rs hr hrest ih =>
    cases h' with
    | nil => exact absurd hr (hstuck r)
    | @cons _ _ _ r' rs' hr' hrest' =>
      cases hr.unique hr'
      rw [encode_length_cons, ← Nat.add_assoc] at hstuck
      exact List.cons_prefix_cons.mpr ⟨rfl, ih hrest' hstuck⟩

end Lists

def Committed (rs : List Record) : Prop := ∃ pre r, rs = pre ++ [r] ∧ lfsTagType1 r.tag = LFS_TYPE_CRC

theorem Committed.prefix_of_append {rs rs' cur : List Record} (h : Committed rs)
    (hcur : ∀ r ∈ cur, ¬lfsTagType1 r.tag = LFS_TYPE_CRC) (hpre : rs <+: rs' ++ cur) : rs <+: rs' := by
  rcases Nat.le_total rs.length rs'.length with hle | hle
  · exact List.prefix_of_prefix_length_le hpre (List.prefix_append _ _) hle
  · obtain ⟨d, rfl⟩ := List.prefix_of_prefix_length_le (List.prefix_append _ _) hpre hle
    rw [List.prefix_append_right_inj] at hpre
    rcases List.eq_nil_or_concat d with rfl | ⟨d, r, rfl⟩
    · rw [List.append_nil]
    · obtain ⟨pre, r', heq, hcrc⟩ := h
      rw [List.concat_eq_append, ← List.append_assoc] at heq
      obtain ⟨-, hlast⟩ := List.append_inj' heq rfl
      cases hlast
      exact absurd hcrc (hcur r (hpre.subset (by simp)))

section Scan

variable {c : LfsConfig} {dev : Device UInt8} {fmask ftag : UInt32} {τ : Type}
  {cb : UInt32 → UInt32 → Nat → τ → Option (Int × τ)} {s s' : Scan} {f f' : Found} {t : τ} {crc₀ : UInt32}
  {r : Record} {all rs : List Record}

/-- The records that have been read, since the start of the block. -/
structure Scanned (c : LfsConfig) (dev : Device UInt8) (crc₀ block : UInt32) (s : Scan) (all : List Record) :
    Prop where
  follow : FollowAll dev block c 4 crc₀ 0xffffffff all
  off_eq : add32 s.off (lfsTagDsize s.ptag).toNat = 4 + (encode 0xffffffff all).length
  ptag_eq : s.ptag = lastPtag 0xffffffff all
  crc_eq : s.crc = lastCrc crc₀ 0xffffffff all
  summary_eq : s.summary = summarize dev block 4 .start all

/-- `dir` is what these commits say. -/
structure Fetched (c : LfsConfig) (dev : Device UInt8) (crc₀ : UInt32) (dir : Mdir) (rs : List Record) : Prop where
  follow : FollowAll dev dir.pair.1 c 4 crc₀ 0xffffffff rs
  committed : Committed rs
  off_eq : dir.off = 4 + (encode 0xffffffff rs).length
  etag_eq : dir.etag = lastPtag 0xffffffff rs
  summary_eq : dir.summary = summarize dev dir.pair.1 4 .start rs

def Quiet (c : LfsConfig) (dev : Device UInt8) (crc₀ block fmask ftag : UInt32)
    (cb : UInt32 → UInt32 → Nat → τ → Option (Int × τ)) : Prop :=
  ∀ all r, FollowAll dev block c 4 crc₀ 0xffffffff (all ++ [r]) →
    QuietAt fmask ftag cb r.tag block (4 + (encode 0xffffffff all).length + 4)

def bestOf (fmask ftag : UInt32) (cmp : UInt32 → List UInt8 → Int) (rs : List Record) : UInt32 :=
  rs.foldl (fun best r => bestStep fmask ftag (cmp r.tag r.data) best r.tag) 0xffffffff

def ComparedBy (c : LfsConfig) (dev : Device UInt8) (crc₀ block fmask ftag : UInt32)
    (cb : UInt32 → UInt32 → Nat → τ → Option (Int × τ)) (cmp : UInt32 → List UInt8 → Int) : Prop :=
  ∀ all r, FollowAll dev block c 4 crc₀ 0xffffffff (all ++ [r]) →
    AnswersAt fmask ftag cb r.tag block (4 + (encode 0xffffffff all).length + 4) (cmp r.tag r.data)

def Best (c : LfsConfig) (dev : Device UInt8) (crc₀ block fmask ftag : UInt32)
    (cb : UInt32 → UInt32 → Nat → τ → Option (Int × τ)) (all : List Record) (best : UInt32) : Prop :=
  ∀ cmp, ComparedBy c dev crc₀ block fmask ftag cb cmp → best = bestOf fmask ftag cmp all

def Knows (c : LfsConfig) (dev : Device UInt8) (crc₀ fmask ftag : UInt32)
    (cb : UInt32 → UInt32 → Nat → τ → Option (Int × τ)) (f : Found) (all : List Record) : Prop :=
  ∃ rs cur, all = rs ++ cur ∧ (∀ r ∈ cur, ¬lfsTagType1 r.tag = LFS_TYPE_CRC) ∧
    (rs = [] ∧ f.dir.off = 0 ∧ f.besttag = 0xffffffff ∨
      Fetched c dev crc₀ f.dir rs ∧ Best c dev crc₀ f.dir.pair.1 fmask ftag cb rs f.besttag)

theorem Knows.setErased (h : Knows c dev crc₀ fmask ftag cb f all) (erased : Bool) :
    Knows c dev crc₀ fmask ftag cb (f.setErased erased) all := by
  obtain ⟨rs, cur, hall, hcur, hknown⟩ := h
  refine ⟨rs, cur, hall, hcur, hknown.imp_right fun ⟨hf, hbest⟩ => ⟨?_, hbest⟩⟩
  exact ⟨hf.follow, hf.committed, hf.off_eq, hf.etag_eq, hf.summary_eq⟩

theorem Scanned.stop (hs : Scanned c dev crc₀ f.dir.pair.1 s all) (hc : Workable c)
    (hb : f.dir.pair.1 < c.blockCount)
    (hstuck : ∀ r, ¬Follows dev f.dir.pair.1 c (4 + (encode 0xffffffff all).length) (lastCrc crc₀ 0xffffffff all)
      (lastPtag 0xffffffff all) r) (fmask ftag : UInt32)
    (cb : UInt32 → UInt32 → Nat → τ → Option (Int × τ)) (t : τ) :
    ∃ erased, fetchTurn (deviceRead c dev) c fmask ftag cb s f t = some (.stop (f.setErased erased) t) := by
  refine fetchTurn_stop hc hb hs.off_eq (hs.follow.fit (four_le_blockSize hc.toLfsInit)) ?_
  rw [hs.crc_eq, hs.ptag_eq]
  exact hstuck

theorem Scanned.next (hs : Scanned c dev crc₀ f.dir.pair.1 s all) (hc : Workable c)
    (hb : f.dir.pair.1 < c.blockCount)
    (hk : Knows c dev crc₀ fmask ftag cb f all) (hbest : Best c dev crc₀ f.dir.pair.1 fmask ftag cb all s.besttag)
    (hquiet : Quiet c dev crc₀ f.dir.pair.1 fmask ftag cb)
    (hr : Follows dev f.dir.pair.1 c (4 + (encode 0xffffffff all).length) (lastCrc crc₀ 0xffffffff all)
      (lastPtag 0xffffffff all) r) (t : τ) :
    ∃ s' f' t', fetchTurn (deviceRead c dev) c fmask ftag cb s f t = some (.next s' f' t') ∧
      f'.dir.pair = f.dir.pair ∧ f'.dir.rev = f.dir.rev ∧ Scanned c dev crc₀ f.dir.pair.1 s' (all ++ [r]) ∧
      Knows c dev crc₀ fmask ftag cb f' (all ++ [r]) ∧
      Best c dev crc₀ f.dir.pair.1 fmask ftag cb (all ++ [r]) s'.besttag := by
  have hfollow := followAll_append.mpr ⟨hs.follow, .cons hr (.nil _ _ _)⟩
  have hr' := hr
  rw [← hs.crc_eq, ← hs.ptag_eq] at hr'
  obtain ⟨s', f', t', hturn, hoff, hptag, hcrc, hsummary, hstep, hf⟩ :=
    fetchTurn_next hc hb (hquiet all r hfollow) hs.off_eq hr' (t := t)
  have hscanned : Scanned c dev crc₀ f.dir.pair.1 s' (all ++ [r]) := by
    refine ⟨hfollow, ?_, ?_, ?_, ?_⟩
    · rw [hoff, hptag, dsize_nextPtag, encode_length_snoc, hc.add32_eq hr.fit, Nat.add_assoc]
    · rw [hptag, lastPtag_snoc]
    · rw [hcrc, lastCrc_append, hs.crc_eq, hs.ptag_eq]
      rfl
    · rw [hsummary, summarize_append 4 0xffffffff, hs.summary_eq]
      rfl
  have hbest' : Best c dev crc₀ f.dir.pair.1 fmask ftag cb (all ++ [r]) s'.besttag := by
    intro cmp hcompared
    rw [bestOf, List.foldl_append, ← bestOf, ← hbest cmp hcompared]
    exact hstep _ (hcompared all r hfollow)
  refine ⟨s', f', t', hturn, ?_⟩
  by_cases htype : lfsTagType1 r.tag = LFS_TYPE_CRC
  · rw [if_pos htype] at hf
    obtain ⟨crc, rfl⟩ := hf
    have hcur : ∀ r ∈ [], ¬lfsTagType1 (Record.tag r) = LFS_TYPE_CRC := fun r hr => absurd hr List.not_mem_nil
    refine ⟨rfl, rfl, hscanned, ⟨all ++ [r], [], (List.append_nil _).symm, hcur, .inr ⟨?_, hbest'⟩⟩, hbest'⟩
    refine ⟨hscanned.follow, ⟨all, r, rfl, htype⟩, ?_, ?_, hscanned.summary_eq⟩
    · show _ + _ = _
      rw [encode_length_snoc, Nat.add_assoc]
    · rw [lastPtag_snoc]
      rfl
  · rw [if_neg htype] at hf
    subst hf
    obtain ⟨rs, cur, rfl, hcur, hknown⟩ := hk
    refine ⟨rfl, rfl, hscanned, ⟨rs, cur ++ [r], List.append_assoc _ _ _, fun r' hr' => ?_, hknown⟩, hbest'⟩
    rcases List.mem_append.mp hr' with hr' | hr'
    · exact hcur r' hr'
    · rwa [List.mem_singleton.mp hr']

/-- The loop reads as many records as there are, and knows what their commits say. -/
theorem fetchScan_spec (hc : Workable c) (hb : f.dir.pair.1 < c.blockCount)
    (hquiet : Quiet c dev crc₀ f.dir.pair.1 fmask ftag cb) {fuel : Nat}
    (hfuel : c.blockSize.toNat ≤ fuel + (4 + (encode 0xffffffff all).length))
    (hs : Scanned c dev crc₀ f.dir.pair.1 s all) (hk : Knows c dev crc₀ fmask ftag cb f all)
    (hbest : Best c dev crc₀ f.dir.pair.1 fmask ftag cb all s.besttag) (t : τ) :
    ∃ f' t' all', fetchScan (deviceRead c dev) c fmask ftag cb fuel s f t = some (.ok f', t') ∧
      f'.dir.pair = f.dir.pair ∧ f'.dir.rev = f.dir.rev ∧
      FollowAll dev f.dir.pair.1 c 4 crc₀ 0xffffffff all' ∧ Knows c dev crc₀ fmask ftag cb f' all' ∧
      ∀ r, ¬Follows dev f.dir.pair.1 c (4 + (encode 0xffffffff all').length) (lastCrc crc₀ 0xffffffff all')
        (lastPtag 0xffffffff all') r := by
  induction fuel generalizing s f t all with
  | zero =>
    have hstuck : ∀ r, ¬Follows dev f.dir.pair.1 c (4 + (encode 0xffffffff all).length)
        (lastCrc crc₀ 0xffffffff all) (lastPtag 0xffffffff all) r := by
      intro r hr
      have hfit := hr.fit
      have hlen := r.length
      omega
    obtain ⟨erased, hturn⟩ := hs.stop hc hb hstuck fmask ftag cb t
    refine ⟨f.setErased erased, t, all, ?_, rfl, rfl, hs.follow, hk.setErased erased, hstuck⟩
    rw [fetchScan, hturn]
  | succ fuel ih =>
    by_cases hr : ∃ r, Follows dev f.dir.pair.1 c (4 + (encode 0xffffffff all).length)
        (lastCrc crc₀ 0xffffffff all) (lastPtag 0xffffffff all) r
    · obtain ⟨r, hr⟩ := hr
      obtain ⟨s', f', t', hturn, hpair, hrev, hs', hk', hbest'⟩ := hs.next hc hb hk hbest hquiet hr t
      rw [← hpair] at hs' hquiet hb hbest'
      have hlen := r.length
      have hsnoc := encode_length_snoc 0xffffffff all r
      obtain ⟨f'', t'', all', hrun, hpair', hrev', hrest⟩ := ih hb hquiet (by omega) hs' hk' hbest' t'
      refine ⟨f'', t'', all', ?_, hpair'.trans hpair, hrev'.trans hrev, ?_⟩
      · rw [fetchScan, hturn]
        exact hrun
      · rwa [hpair] at hrest
    · have hstuck := not_exists.mp hr
      obtain ⟨erased, hturn⟩ := hs.stop hc hb hstuck fmask ftag cb t
      refine ⟨f.setErased erased, t, all, ?_, rfl, rfl, hs.follow, hk.setErased erased, hstuck⟩
      rw [fetchScan, hturn]

end Scan

/-! ## The pair -/

section Pair

variable {c : LfsConfig} {dev : Device UInt8} {fmask ftag : UInt32} {τ : Type}
  {cb : UInt32 → UInt32 → Nat → τ → Option (Int × τ)} {f : Found} {block : UInt32} {rs : List Record}

def revOf (dev : Device UInt8) (block : UInt32) : UInt32 := lfsFromle32 (dev.read block.toNat 0 4)

def revCrc (dev : Device UInt8) (block : UInt32) : UInt32 := lfsCrc 0xffffffff (le32 (revOf dev block))

def Commits (c : LfsConfig) (dev : Device UInt8) (block : UInt32) (rs : List Record) : Prop :=
  FollowAll dev block c 4 (revCrc dev block) 0xffffffff rs ∧ Committed rs

structure Longest (c : LfsConfig) (dev : Device UInt8) (dir : Mdir) (rs : List Record) : Prop
    extends Fetched c dev (revCrc dev dir.pair.1) dir rs where
  rev_eq : dir.rev = revOf dev dir.pair.1
  longest : ∀ rs', Commits c dev dir.pair.1 rs' → rs' <+: rs

theorem fetchBlock_spec (hc : Workable c) (hb : f.dir.pair.1 < c.blockCount)
    (hquiet : Quiet c dev (revCrc dev f.dir.pair.1) f.dir.pair.1 fmask ftag cb) (t : τ)
    (hrev : f.dir.rev = revOf dev f.dir.pair.1) (hoff : f.dir.off = 0)
    (hbest : f.besttag = 0xffffffff) :
    ∃ f' t', fetchBlock (deviceRead c dev) c fmask ftag cb f t = some (.ok f', t') ∧
      f'.dir.pair = f.dir.pair ∧
      (f'.dir.off = 0 ∧ f'.besttag = 0xffffffff ∧ (∀ rs, ¬Commits c dev f.dir.pair.1 rs) ∨
        0 < f'.dir.off ∧ ∃ rs, Longest c dev f'.dir rs ∧
          Best c dev (revCrc dev f'.dir.pair.1) f'.dir.pair.1 fmask ftag cb rs f'.besttag) := by
  have hcrc : lfsCrc 0xffffffff (le32 f.dir.rev) = revCrc dev f.dir.pair.1 := by rw [hrev, revCrc]
  have hstart : Scanned c dev (revCrc dev f.dir.pair.1) f.dir.pair.1
      ⟨0, LFS_BLOCK_NULL, lfsCrc 0xffffffff (le32 f.dir.rev), 0, (LFS_BLOCK_NULL, LFS_BLOCK_NULL), false, f.besttag⟩
      [] := by
    refine ⟨.nil _ _ _, ?_, rfl, hcrc, rfl⟩
    show add32 0 (lfsTagDsize LFS_BLOCK_NULL).toNat = 4 + 0
    decide
  have hknows : Knows c dev (revCrc dev f.dir.pair.1) fmask ftag cb f [] :=
    ⟨[], [], rfl, fun r hr => absurd hr List.not_mem_nil, .inl ⟨rfl, hoff, hbest⟩⟩
  obtain ⟨f', t', all, hrun, hpair, hrev', hfollow, ⟨rs, cur, rfl, hcur, hknown⟩, hstuck⟩ :=
    fetchScan_spec hc hb hquiet (Nat.le_add_right _ _) hstart hknows (fun _ _ => hbest) t
  have hlongest : ∀ rs', Commits c dev f.dir.pair.1 rs' → rs' <+: rs := by
    rintro rs' ⟨hfollow', hcommitted⟩
    exact hcommitted.prefix_of_append hcur (hfollow'.prefix_of_stuck hfollow hstuck)
  refine ⟨f', t', hrun, hpair, ?_⟩
  rcases hknown with ⟨rfl, hzero, hbest'⟩ | ⟨hfetched, hbest'⟩
  · refine .inl ⟨hzero, hbest', fun rs' hrs' => ?_⟩
    have hnil := List.prefix_nil.mp (hlongest rs' hrs')
    obtain ⟨-, pre, r, heq, -⟩ := hrs'
    rw [heq] at hnil
    exact List.append_ne_nil_of_right_ne_nil pre (List.cons_ne_nil r []) hnil
  · refine .inr ⟨?_, rs, ⟨?_, ?_, ?_⟩, by rwa [← hpair] at hbest'⟩
    · rw [hfetched.off_eq]
      omega
    · rw [hpair]
      exact hfetched
    · rw [hrev', hpair, hrev]
    · rwa [hpair]

theorem fetchBlocks_spec (hc : Workable c) (hb : f.dir.pair.1 < c.blockCount ∧ f.dir.pair.2 < c.blockCount)
    (hquiet : Quiet c dev (revCrc dev f.dir.pair.1) f.dir.pair.1 fmask ftag cb)
    (hquiet' : Quiet c dev (revCrc dev f.dir.pair.2) f.dir.pair.2 fmask ftag cb) (gstate : Gstate) (t : τ)
    (hrev : f.dir.rev = revOf dev f.dir.pair.1) (hoff : f.dir.off = 0) (hbest : f.besttag = 0xffffffff) :
    ∃ res t', fetchBlocks (deviceRead c dev) c fmask ftag cb gstate f (revOf dev f.dir.pair.2) t = some (res, t') ∧
      ((∃ f' rs, res = .ok (f', fetchAnswer gstate f') ∧
          (Longest c dev f'.dir rs ∧
            Best c dev (revCrc dev f'.dir.pair.1) f'.dir.pair.1 fmask ftag cb rs f'.besttag) ∧
          (f'.dir.pair = f.dir.pair ∨
            f'.dir.pair = lfsPairSwap f.dir.pair ∧ ∀ rs, ¬Commits c dev f.dir.pair.1 rs)) ∨
        res = .error LFS_ERR_CORRUPT ∧ ∀ rs, ¬Commits c dev f.dir.pair.1 rs ∧ ¬Commits c dev f.dir.pair.2 rs) := by
  obtain ⟨f₁, t₁, hrun₁, hpair₁, hres₁⟩ := fetchBlock_spec hc hb.1 hquiet t hrev hoff hbest
  unfold fetchBlocks
  simp only [hrun₁]
  rcases hres₁ with ⟨hzero₁, hbest₁, hnone₁⟩ | ⟨hpos₁, rs, hrs⟩
  · have hquiet₂ : Quiet c dev (revCrc dev (lfsPairSwap f₁.dir.pair).1) (lfsPairSwap f₁.dir.pair).1 fmask ftag
        cb := by
      rw [hpair₁]
      exact hquiet'
    obtain ⟨f₂, t₂, hrun₂, hpair₂, hres₂⟩ := fetchBlock_spec
      (f := { f₁ with dir := { f₁.dir with pair := lfsPairSwap f₁.dir.pair, rev := revOf dev f.dir.pair.2 } })
      hc (by rw [hpair₁]; exact hb.2) hquiet₂ t₁ (by rw [hpair₁]; rfl) hzero₁ hbest₁
    simp only [if_neg (show ¬0 < f₁.dir.off by omega), hrun₂]
    rw [hpair₁] at hpair₂ hres₂
    rcases hres₂ with ⟨hzero₂, -, hnone₂⟩ | ⟨hpos₂, rs, hrs⟩
    · simp only [if_neg (show ¬0 < f₂.dir.off by omega)]
      exact ⟨_, _, rfl, .inr ⟨rfl, fun rs => ⟨hnone₁ rs, hnone₂ rs⟩⟩⟩
    · simp only [if_pos hpos₂]
      exact ⟨_, _, rfl, .inl ⟨f₂, rs, rfl, hrs, .inr ⟨hpair₂, hnone₁⟩⟩⟩
  · simp only [if_pos hpos₁]
    exact ⟨_, _, rfl, .inl ⟨f₁, rs, rfl, hrs, .inl hpair₁⟩⟩

/-- The pair with the block of the most recent revision first. -/
def newestFirst (dev : Device UInt8) (pair : Pair) : Pair :=
  if 0 < lfsScmp (revOf dev pair.2) (revOf dev pair.1) then (pair.2, pair.1) else pair

theorem lfsDirFetchmatch_eq (dev : Device UInt8) (hc : Workable c) {pair : Pair}
    (hb : pair.1 < c.blockCount ∧ pair.2 < c.blockCount) (gstate : Gstate)
    (dir : Mdir) (seed : UInt32) (t : τ) :
    lfsDirFetchmatch (deviceRead c dev) c fmask ftag cb gstate dir pair seed t =
      fetchBlocks (deviceRead c dev) c fmask ftag cb gstate
        ⟨{ dir with pair := newestFirst dev pair, rev := revOf dev (newestFirst dev pair).1, off := 0 },
          0xffffffff, seed⟩
        (revOf dev (newestFirst dev pair).2) t := by
  have hread : ∀ block < c.blockCount,
      fetchRev (deviceRead c dev) block = some (.ok (revOf dev block, true)) := by
    intro block hblock
    have hfit : 0 + 4 ≤ c.blockSize.toNat := four_le_blockSize hc.toLfsInit
    rw [fetchRev, deviceRead_self hc hblock hfit]
    rfl
  unfold lfsDirFetchmatch newestFirst
  simp only [hread pair.1 hb.1, hread pair.2 hb.2, true_and]
  split <;> rfl

/-- A fetch gives all commits of the block with the most recent revision, or of the other one if that has
none. -/
theorem lfsDirFetchmatch_longest (hc : Workable c) {pair : Pair}
    (hb : pair.1 < c.blockCount ∧ pair.2 < c.blockCount) (hquiet : Quiet c dev (revCrc dev pair.1) pair.1 fmask ftag cb)
    (hquiet' : Quiet c dev (revCrc dev pair.2) pair.2 fmask ftag cb) (gstate : Gstate)
    (dir : Mdir) (seed : UInt32) (t : τ) :
    ∃ res t', lfsDirFetchmatch (deviceRead c dev) c fmask ftag cb gstate dir pair seed t = some (res, t') ∧
      ((∃ f rs, res = .ok (f, fetchAnswer gstate f) ∧ Longest c dev f.dir rs ∧
          (f.dir.pair = newestFirst dev pair ∨
            f.dir.pair = lfsPairSwap (newestFirst dev pair) ∧ ∀ rs, ¬Commits c dev (newestFirst dev pair).1 rs)) ∨
        res = .error LFS_ERR_CORRUPT ∧ ∀ rs, ¬Commits c dev pair.1 rs ∧ ¬Commits c dev pair.2 rs) := by
  rw [lfsDirFetchmatch_eq dev hc hb]
  unfold newestFirst
  split
  · obtain ⟨res, t', hrun, hres⟩ := fetchBlocks_spec hc hb.symm hquiet' hquiet gstate t
      (f := ⟨{ dir with pair := (pair.2, pair.1), rev := revOf dev pair.2, off := 0 }, 0xffffffff, seed⟩)
      rfl rfl rfl
    rcases hres with ⟨f, rs, hres, ⟨hlongest, -⟩, hpair⟩ | ⟨hres, hnone⟩
    · exact ⟨res, t', hrun, .inl ⟨f, rs, hres, hlongest, hpair⟩⟩
    · exact ⟨res, t', hrun, .inr ⟨hres, fun rs => (hnone rs).symm⟩⟩
  · obtain ⟨res, t', hrun, hres⟩ := fetchBlocks_spec hc hb hquiet hquiet' gstate t
      (f := ⟨{ dir with pair, rev := revOf dev pair.1, off := 0 }, 0xffffffff, seed⟩) rfl rfl rfl
    exact ⟨res, t', hrun, hres.imp_left fun ⟨f, rs, hres, ⟨hlongest, _⟩, hpair⟩ => ⟨f, rs, hres, hlongest, hpair⟩⟩

theorem twoFiles_commits (block : UInt32) : Commits eightBlocks twoFilesDevice block twoFiles := by
  have hrecord : ∀ off crc ptag, ∀ r : Record,
      twoFilesDevice.read 0 off (be32 (r.tag ^^^ ptag) ++ r.data).length = be32 (r.tag ^^^ ptag) ++ r.data ∧
      off + (lfsTagDsize r.tag).toNat ≤ 104 ∧
      (lfsTagType1 r.tag = LFS_TYPE_CRC →
        off + 8 ≤ 104 ∧ twoFilesDevice.read 0 (off + 4) 4 = le32 (lfsCrc crc (be32 (r.tag ^^^ ptag)))) ∧
      lfsTagType1 r.tag ≠ LFS_TYPE_TAIL → Follows twoFilesDevice block eightBlocks off crc ptag r :=
    fun off crc ptag r h => ⟨h.1, h.2.1, h.2.2.1, fun htail => absurd htail h.2.2.2⟩
  refine ⟨?_, twoFiles.take 6, _, rfl, by decide⟩
  show FollowAll twoFilesDevice block eightBlocks 4 (revCrc twoFilesDevice 0) 0xffffffff twoFiles
  refine .cons (hrecord _ _ _ _ ?_) (.cons (hrecord _ _ _ _ ?_) (.cons (hrecord _ _ _ _ ?_)
    (.cons (hrecord _ _ _ _ ?_) (.cons (hrecord _ _ _ _ ?_) (.cons (hrecord _ _ _ _ ?_)
    (.cons (hrecord _ _ _ _ ?_) (.nil _ _ _)))))))
  all_goals decide +kernel

theorem lfsDirFetchmatch_longest_twoFiles :
    ∃ f rs t', lfsDirFetchmatch (deviceRead eightBlocks twoFilesDevice) eightBlocks 0 0
        (fun _ _ _ t => some (1, t)) ⟨0, (0, 0)⟩ twoFilesDir (0, 1) 0 () =
          some (.ok (f, fetchAnswer ⟨0, (0, 0)⟩ f), t') ∧
      Longest eightBlocks twoFilesDevice f.dir rs ∧ f.dir.pair = (0, 1) := by
  have hquiet : ∀ crc block, Quiet eightBlocks twoFilesDevice crc block 0 0 fun _ _ _ (t : Unit) => some (1, t) :=
    fun _ _ _ _ _ _ t => ⟨1, t, rfl, by decide⟩
  have hnewest : newestFirst twoFilesDevice (0, 1) = (0, 1) := by decide
  obtain ⟨res, t', hrun, ⟨f, rs, rfl, hrs, hpair⟩ | ⟨-, hnone⟩⟩ :=
    @lfsDirFetchmatch_longest eightBlocks twoFilesDevice 0 0 Unit _ eightBlocks_workable (0, 1) (by decide)
      (hquiet _ 0) (hquiet _ 1) ⟨0, (0, 0)⟩ twoFilesDir 0 ()
  · rw [hnewest] at hpair
    refine ⟨f, rs, t', hrun, hrs, hpair.resolve_right fun h => ?_⟩
    exact h.2 twoFiles (twoFiles_commits 0)
  · exact absurd (twoFiles_commits 0) (hnone twoFiles).1

end Pair

end LfsTool
