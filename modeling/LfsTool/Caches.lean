import LfsTool.BlockDevice
import LfsTool.Sizes

/-!
# LfsTool.Caches

The caching block device operations of `lfs.c`. The device is reached through the callbacks of
`struct lfs_config` (`Callbacks`), which serve an array of blocks (`Serves`) as the image does
(`imageCallbacks_serve`).

* `bdRead_spec`: a read gives what the device and the program cache have, whatever is in the caches.
* `bdRead_after_error`: after an access that failed, the same read is answered from the cache.

`none` stands for an assertion that fails, or a loop that does not end.
-/

namespace LfsTool

open BlockArray

abbrev LFS_BLOCK_INLINE : UInt32 := 0xfffffffe

/-- The four functions of `struct lfs_config`. A read returns the new contents of its buffer too. -/
structure Callbacks (σ : Type) where
  read : UInt32 → UInt32 → List UInt8 → UInt32 → σ → (Int × List UInt8) × σ
  prog : UInt32 → UInt32 → List UInt8 → UInt32 → σ → Int × σ
  erase : UInt32 → σ → Int × σ
  sync : σ → Int × σ

def imageCallbacks {σ : Type} (stdio : Stdio σ) (c : LfsConfig) : Callbacks σ where
  read := fsRead stdio c
  prog := fsProg stdio c
  erase := fsErase stdio c
  sync := fsSync stdio

/-- `lfs_cache_t` -/
structure Cache where
  block : UInt32
  off : Nat
  size : Nat
  buffer : List UInt8
  deriving DecidableEq

section Operations

variable {σ : Type} (cb : Callbacks σ) (c : LfsConfig)

def lfsCacheDrop (rcache : Cache) : Cache := { rcache with block := LFS_BLOCK_NULL }

def lfsCacheZero (pcache : Cache) : Cache :=
  { pcache with buffer := List.replicate c.cacheSize.toNat 0xff, block := LFS_BLOCK_NULL }

def Cache.bytes (cache : Cache) (off size : Nat) : List UInt8 :=
  (cache.buffer.drop (off - cache.off)).take size

def Cache.Hits (cache : Cache) (block : UInt32) (off : Nat) : Prop :=
  block = cache.block ∧ off < add32 cache.off cache.size

instance (cache : Cache) (block : UInt32) (off : Nat) : Decidable (cache.Hits block off) :=
  inferInstanceAs (Decidable (_ ∧ _))

/-- The part of a read of at most `size` bytes that `rcache` has. -/
def rcached (rcache : Cache) (block : UInt32) (off size : Nat) : Option (Nat × List UInt8) :=
  if rcache.Hits block off ∧ rcache.off ≤ off then
    let diff := min size (rcache.size - (off - rcache.off))
    some (diff, rcache.bytes off diff)
  else none

/-- The part of a read that is in a cache. -/
def bdCached (pcache : Option Cache) (rcache : Cache) (block : UInt32) (off size : Nat) :
    Option (Nat × List UInt8) :=
  match pcache.filter fun pcache => pcache.Hits block off with
  | none => rcached rcache block off size
  | some pcache =>
    if pcache.off ≤ off then
      let diff := min size (pcache.size - (off - pcache.off))
      some (diff, pcache.bytes off diff)
    else
      -- pcache takes priority
      rcached rcache block off (min size (pcache.off - off))

/-- What of the block `rcache` is to have. -/
def loadOff (off : Nat) : Nat := lfsAligndown off c.readSize.toNat

def loadSize (hint off : Nat) : Nat :=
  min (sub32 (min (lfsAlignup (add32 off hint) c.readSize.toNat) c.blockSize.toNat) (loadOff c off))
    c.cacheSize.toNat

def bdReadLoop (pcache : Option Cache) (hint : Nat) (block : UInt32) :
    Nat → Nat → Nat → List UInt8 → Cache → σ → Option ((Int × List UInt8) × Cache × σ)
  | fuel, off, size, data, rcache, w =>
    if size = 0 then some ((0, data), rcache, w)
    else
      match fuel with
      | 0 => none
      | fuel + 1 =>
        match bdCached pcache rcache block off size with
        | some (diff, bytes) =>
          bdReadLoop pcache hint block fuel (add32 off diff) (size - diff) (data ++ bytes) rcache w
        | none =>
          if c.blockCount ≤ block then none
          else
            let ((err, buffer), w) := cb.read block (loadOff c off).toUInt32 rcache.buffer
              (loadSize c hint off).toUInt32 w
            let rcache := ⟨block, loadOff c off, loadSize c hint off, buffer⟩
            if err ≠ 0 then some ((err, data), rcache, w)
            else bdReadLoop pcache hint block fuel off size data rcache w

/-- `lfs_bd_read`. Every piece takes two turns of the loop at most. -/
def bdRead (pcache : Option Cache) (rcache : Cache) (hint : Nat) (block : UInt32) (off size : Nat)
    (w : σ) : Option ((Int × List UInt8) × Cache × σ) :=
  if block = LFS_BLOCK_NULL then none
  else if c.blockSize.toNat < add32 off size then some ((LFS_ERR_CORRUPT, []), rcache, w)
  else bdReadLoop cb c pcache hint block (2 * size) off size [] rcache w

inductive LfsCmp where
  | eq
  | lt
  | gt
  deriving DecidableEq

def bdCmpLoop (pcache : Option Cache) (hint : Nat) (block : UInt32) (off : Nat) :
    Nat → List UInt8 → Cache → σ → Option (Except Int LfsCmp × Cache × σ)
  | _, [], rcache, w => some (.ok .eq, rcache, w)
  | i, b :: buffer, rcache, w =>
    match bdRead cb c pcache rcache (sub32 hint i) block (add32 off i) 1 w with
    | none => none
    | some ((err, dat), rcache, w) =>
      if err ≠ 0 then some (.error err, rcache, w)
      else if dat ≠ [b] then some (.ok (if dat.headD 0 < b then .lt else .gt), rcache, w)
      else bdCmpLoop pcache hint block off (i + 1) buffer rcache w

def bdCmp (pcache : Option Cache) (rcache : Cache) (hint : Nat) (block : UInt32) (off : Nat)
    (buffer : List UInt8) (w : σ) : Option (Except Int LfsCmp × Cache × σ) :=
  bdCmpLoop cb c pcache hint block off 0 buffer rcache w

def flushSize (pcache : Cache) : Nat := lfsAlignup pcache.size c.progSize.toNat

/-- The result, the two caches and the device. -/
def bdFlush (pcache rcache : Cache) (validate : Bool) (w : σ) : Option (Int × Cache × Cache × σ) :=
  if pcache.block = LFS_BLOCK_NULL ∨ pcache.block = LFS_BLOCK_INLINE then
    some (0, pcache, rcache, w)
  else if c.blockCount ≤ pcache.block then none
  else
    let (err, w) := cb.prog pcache.block pcache.off.toUInt32 pcache.buffer
      (flushSize c pcache).toUInt32 w
    if err ≠ 0 then some (err, pcache, rcache, w)
    else if validate then
      match bdCmp cb c none (lfsCacheDrop rcache) (flushSize c pcache) pcache.block pcache.off
        (pcache.buffer.take (flushSize c pcache)) w with
      | none => none
      | some (.error res, rcache, w) => some (res, pcache, rcache, w)
      | some (.ok res, rcache, w) =>
        if res ≠ .eq then some (LFS_ERR_CORRUPT, pcache, rcache, w)
        else some (0, lfsCacheZero c pcache, rcache, w)
    else some (0, lfsCacheZero c pcache, rcache, w)

def bdSync (pcache rcache : Cache) (validate : Bool) (w : σ) : Option (Int × Cache × Cache × σ) :=
  match bdFlush cb c pcache (lfsCacheDrop rcache) validate w with
  | none => none
  | some (err, pcache, rcache, w) =>
    if err ≠ 0 then some (err, pcache, rcache, w)
    else
      let (err, w) := cb.sync w
      some (err, pcache, rcache, w)

/-- How many of `n` bytes at `off` fit into the cache. -/
def progDiff (pcache : Cache) (off n : Nat) : Nat := min n (c.cacheSize.toNat - (off - pcache.off))

def progCopy (pcache : Cache) (off : Nat) (data : List UInt8) : Cache :=
  let diff := progDiff c pcache off data.length
  { pcache with
    buffer := overwrite pcache.buffer (off - pcache.off) (data.take diff)
    size := max pcache.size (off + diff - pcache.off) }

def bdProgLoop (validate : Bool) (block : UInt32) :
    Nat → Nat → List UInt8 → Cache → Cache → σ → Option (Int × Cache × Cache × σ)
  | fuel, off, data, pcache, rcache, w =>
    if data = [] then some (0, pcache, rcache, w)
    else
      match fuel with
      | 0 => none
      | fuel + 1 =>
        let diff := progDiff c pcache off data.length
        if block = pcache.block ∧ pcache.off ≤ off ∧ off < add32 pcache.off c.cacheSize.toNat then
          if (progCopy c pcache off data).size = c.cacheSize.toNat then
            match bdFlush cb c (progCopy c pcache off data) rcache validate w with
            | none => none
            | some (err, pcache, rcache, w) =>
              if err ≠ 0 then some (err, pcache, rcache, w)
              else bdProgLoop validate block fuel (add32 off diff) (data.drop diff) pcache rcache w
          else
            bdProgLoop validate block fuel (add32 off diff) (data.drop diff)
              (progCopy c pcache off data) rcache w
        else if pcache.block ≠ LFS_BLOCK_NULL then none
        else
          bdProgLoop validate block fuel off data
            ⟨block, lfsAligndown off c.progSize.toNat, 0, pcache.buffer⟩ rcache w

def bdProg (pcache rcache : Cache) (validate : Bool) (block : UInt32) (off : Nat)
    (data : List UInt8) (w : σ) : Option (Int × Cache × Cache × σ) :=
  if block = LFS_BLOCK_NULL ∨ c.blockSize.toNat < add32 off data.length then none
  else bdProgLoop cb c validate block (2 * data.length) off data pcache rcache w

def bdErase (block : UInt32) (w : σ) : Option (Int × σ) :=
  if c.blockCount ≤ block then none else some (cb.erase block w)

end Operations

/-! ## The device behind the callbacks -/

/-- `read` reads from an array of blocks that `shows` tells from the state, or it fails. Nothing is
promised of `prog` but that there is an array afterwards. -/
structure ServesReads {σ : Type} (cb : Callbacks σ) (c : LfsConfig) (shows : σ → Device UInt8 → Prop) :
    Prop where
  read : ∀ {w w' dev block off buffer size err buffer'}, shows w dev → block < c.blockCount →
    off.toNat + size.toNat ≤ c.blockSize.toNat → size.toNat ≤ buffer.length →
    cb.read block off buffer size w = ((err, buffer'), w') →
    shows w' dev ∧ (err = 0 ∧
      buffer' = dev.read block.toNat off.toNat size.toNat ++ buffer.drop size.toNat ∨
        err < 0 ∧ buffer'.length = buffer.length)
  progs : ∀ {w w' dev block off buffer size err}, shows w dev → block < c.blockCount →
    off.toNat + size.toNat ≤ c.blockSize.toNat → size.toNat ≤ buffer.length →
    cb.prog block off buffer size w = (err, w') → err ≤ 0 ∧ ∃ dev', shows w' dev'

/-- The callbacks do what they are for on such an array, or they fail; then they change no other
block. -/
structure Serves {σ : Type} (cb : Callbacks σ) (c : LfsConfig) (shows : σ → Device UInt8 → Prop) :
    Prop extends ServesReads cb c shows where
  prog : ∀ {w w' dev block off buffer size err}, shows w dev → block < c.blockCount →
    off.toNat + size.toNat ≤ c.blockSize.toNat → size.toNat ≤ buffer.length →
    cb.prog block off buffer size w = (err, w') →
    err = 0 ∧ shows w' (dev.prog block.toNat off.toNat (buffer.take size.toNat)) ∨
      err < 0 ∧ ∃ dev', shows w' dev' ∧ ∀ b ≠ block.toNat, dev' b = dev b
  erase : ∀ {w w' dev block err}, shows w dev → block < c.blockCount →
    cb.erase block w = (err, w') →
    err = 0 ∧ shows w' (dev.erase block.toNat 0xff) ∨
      err < 0 ∧ ∃ dev', shows w' dev' ∧ ∀ b ≠ block.toNat, dev' b = dev b
  sync : ∀ {w w' dev err}, shows w dev → cb.sync w = (err, w') → shows w' dev ∧ err ≤ 0

/-- The image shows the blocks it consists of. -/
def imageShows (c : LfsConfig) (s : ByteFile.Stream) (dev : Device UInt8) : Prop :=
  Flat c.blockCount.toNat c.blockSize.toNat dev s.content

section Image

variable {script : ByteFile.Script} {c : LfsConfig} {s s' : ByteFile.Stream} {dev : Device UInt8}

theorem exists_shows_of_frame (hflat : Flat c.blockCount.toNat c.blockSize.toNat dev s.content)
    (hlen : s'.content.length = s.content.length) {block : Nat}
    (hframe : ∀ i, ¬(block * c.blockSize.toNat ≤ i ∧
      i < block * c.blockSize.toNat + c.blockSize.toNat) → s'.content[i]? = s.content[i]?) :
    ∃ dev', imageShows c s' dev' ∧ ∀ b ≠ block, dev' b = dev b := by
  obtain ⟨dev', hdev'⟩ := exists_flat (hlen.trans hflat.length)
  refine ⟨fun b => if b = block then dev' b else dev b, ⟨hdev'.length, fun b hb o ho => ?_⟩,
    fun b hb => if_neg hb⟩
  by_cases hblock : b = block
  · simp only [if_pos hblock]
    exact hdev'.item b hb o ho
  · simp only [if_neg hblock]
    rw [← hflat.item b hb o ho]
    refine hframe _ fun hin => hblock ?_
    rw [← Nat.add_zero (block * _)] at hin
    exact ((mem_range_iff ho (Nat.le_of_eq (Nat.zero_add _))).mp hin).1

theorem Performed.shows {cmd : Cmd} {r : Int × List UInt8} (h : Performed script c cmd s r s')
    (hcmd : ∀ i, ¬cmd.Touches c i) (hflat : imageShows c s dev) : imageShows c s' dev := by
  have hcontent : s'.content = s.content := List.ext_getElem? fun i => h.frame i (hcmd i)
  rw [imageShows, hcontent]
  exact hflat

theorem Performed.shows_or {cmd : Cmd} {r : Int × List UInt8} {block : Nat}
    (h : Performed script c cmd s r s')
    (hcmd : ∀ i, cmd.Touches c i → block * c.blockSize.toNat ≤ i ∧
      i < block * c.blockSize.toNat + c.blockSize.toNat) (hflat : imageShows c s dev) :
    r.1 = 0 ∧ imageShows c s' (cmd.effect dev).2 ∨
      r.1 < 0 ∧ ∃ dev', imageShows c s' dev' ∧ ∀ b ≠ block, dev' b = dev b := by
  rcases h.result with ⟨-, hr⟩ | ⟨-, hr, heffect⟩
  · refine .inr ⟨by omega, exists_shows_of_frame hflat h.length fun i hi => ?_⟩
    exact h.frame i fun ht => hi (hcmd i ht)
  · exact .inl ⟨hr, (heffect dev hflat).2⟩

theorem fsProg_shows (hsize : c.size < 2 ^ 32) (hshows : imageShows c s dev) {block off size : UInt32}
    {buffer : List UInt8} (hb : block < c.blockCount)
    (hoff : off.toNat + size.toNat ≤ c.blockSize.toNat) (hlen : size.toNat ≤ buffer.length) {err : Int}
    (h : fsProg (fileStdio script) c block off buffer size s = (err, s')) :
    err = 0 ∧ imageShows c s' (dev.prog block.toNat off.toNat (buffer.take size.toNat)) ∨
      err < 0 ∧ ∃ dev', imageShows c s' dev' ∧ ∀ b ≠ block.toNat, dev' b = dev b := by
  have hspec := fsProg_spec hsize hshows.length ⟨hb, hoff, hlen⟩ h
  refine hspec.shows_or (fun i hi => ?_) hshows
  simp only [Cmd.Touches] at hi
  exact ⟨by omega, by omega⟩

theorem fread_length (n : Nat) : ((fileStdio script).fread n s).1.length ≤ n := by
  show (ByteFile.read script s n).1.length ≤ n
  rw [ByteFile.read]
  split
  · exact Nat.zero_le n
  · refine Nat.le_trans (List.length_take_le _ _) ?_
    rw [ByteFile.transferred]
    split <;> omega

/-- `fread` never writes past the part of the buffer it was given. -/
theorem fsRead_buffer {block off size : UInt32} {buffer : List UInt8} (hlen : size.toNat ≤ buffer.length)
    {r : Int × List UInt8} (h : fsRead (fileStdio script) c block off buffer size s = (r, s')) :
    r.2.length = buffer.length := by
  have hread : ∀ s, ((fileStdio script).fread size.toNat s).1.length ≤ size.toNat :=
    fun s => fread_length _
  have hbuf : ∀ s, (((fileStdio script).fread size.toNat s).1 ++
      buffer.drop ((fileStdio script).fread size.toNat s).1.length).length = buffer.length := fun s => by
    rw [List.length_append, List.length_drop]
    have := hread s
    omega
  rw [fsRead] at h
  simp only at h
  split at h
  · cases h
    rfl
  · split at h
    · cases h
      exact hbuf _
    · cases h
      exact hbuf _

theorem imageCallbacks_serve (hsize : c.size < 2 ^ 32) :
    Serves (imageCallbacks (fileStdio script) c) c (imageShows c) where
  read hshows hb hoff hlen h := by
    have hspec := fsRead_spec hsize hshows.length ⟨hb, hoff, hlen⟩ h
    refine ⟨hspec.shows (fun i => not_false) hshows, ?_⟩
    rcases hspec.result with ⟨-, hr⟩ | ⟨-, hr, heffect⟩
    · exact .inr ⟨by omega, fsRead_buffer hlen h⟩
    · exact .inl ⟨hr, (heffect _ hshows).1⟩
  progs hshows hb hoff hlen h := by
    rcases fsProg_shows hsize hshows hb hoff hlen h with ⟨herr, hdev⟩ | ⟨herr, dev', hdev, -⟩
    · exact ⟨Int.le_of_eq herr, _, hdev⟩
    · exact ⟨Int.le_of_lt herr, dev', hdev⟩
  prog hshows hb hoff hlen h := fsProg_shows hsize hshows hb hoff hlen h
  erase hshows hb h := by
    have hspec := fsErase_spec hsize hshows.length hb h
    exact hspec.shows_or (fun i hi => hi) hshows
  sync hshows h := by
    have hspec := fsSync_spec (c := c) h
    refine ⟨hspec.shows (fun i => not_false) hshows, ?_⟩
    rcases hspec.result with ⟨-, hr⟩ | ⟨-, hr, -⟩ <;> omega

end Image

def memoryCallbacks : Callbacks (Device UInt8) where
  read block off buffer size dev :=
    ((0, dev.read block.toNat off.toNat size.toNat ++ buffer.drop size.toNat), dev)
  prog block off buffer size dev := (0, dev.prog block.toNat off.toNat (buffer.take size.toNat))
  erase block dev := (0, dev.erase block.toNat 0xff)
  sync dev := (0, dev)

/-- Blocks in memory, with no access to them. -/
def brokenCallbacks : Callbacks (Device UInt8) where
  read _ _ buffer _ dev := ((LFS_ERR_CORRUPT, buffer), dev)
  prog _ _ _ _ dev := (LFS_ERR_CORRUPT, dev)
  erase _ dev := (LFS_ERR_CORRUPT, dev)
  sync dev := (LFS_ERR_CORRUPT, dev)

theorem memoryCallbacks_serve (c : LfsConfig) : Serves memoryCallbacks c (fun w dev => w = dev) where
  read := by
    rintro w _ _ block off buffer size _ _ rfl - - - ⟨⟩
    exact ⟨rfl, .inl ⟨rfl, rfl⟩⟩
  progs := by
    rintro w _ _ block off buffer size _ rfl - - - ⟨⟩
    exact ⟨Int.le_refl 0, _, rfl⟩
  prog := by
    rintro w _ _ block off buffer size _ rfl - - - ⟨⟩
    exact .inl ⟨rfl, rfl⟩
  erase := by
    rintro w _ _ block _ rfl - ⟨⟩
    exact .inl ⟨rfl, rfl⟩
  sync := by
    rintro w _ _ _ rfl ⟨⟩
    exact ⟨rfl, Int.le_refl 0⟩

theorem brokenCallbacks_serve (c : LfsConfig) :
    ServesReads brokenCallbacks c (fun w dev => w = dev) where
  read := by
    rintro w _ _ block off buffer size _ _ rfl - - - ⟨⟩
    exact ⟨rfl, .inr ⟨by decide, rfl⟩⟩
  progs := by
    rintro w _ _ block off buffer size _ rfl - - - ⟨⟩
    exact ⟨by decide, _, rfl⟩

/-- Eight blocks of the least size, in units of eight bytes. -/
def eightBlocks : LfsConfig :=
  { mLfsConfig with
    readSize := 8, progSize := 8, blockSize := 104, blockCount := 8, cacheSize := 8,
    lookaheadSize := 8 }

theorem eightBlocks_init : LfsInit eightBlocks := by
  constructor <;> decide

theorem eightBlocks_workable : Workable eightBlocks := ⟨eightBlocks_init, by decide⟩

/-! ## Reading -/

/-- A cache of the right size, filled up to `size`, for a place that exists. -/
structure Cache.Sized (c : LfsConfig) (cache : Cache) : Prop where
  length : cache.buffer.length = c.cacheSize.toNat
  size : cache.size ≤ cache.buffer.length
  fits : cache.block ≠ LFS_BLOCK_NULL → cache.off + cache.size < 2 ^ 32

/-- What the cache has of a block is what the device has. -/
structure Cache.Coherent (c : LfsConfig) (dev : Device UInt8) (cache : Cache) : Prop
    extends cache.Sized c where
  bytes : cache.block < c.blockCount →
    cache.buffer.take cache.size = dev.read cache.block.toNat cache.off cache.size

def overlay (pcache : Option Cache) (dev : Device UInt8) : Device UInt8 :=
  match pcache with
  | none => dev
  | some pcache => dev.prog pcache.block.toNat pcache.off (pcache.buffer.take pcache.size)

/-- A hint of one byte to a block. -/
def GoodHint (c : LfsConfig) (hint : Nat) : Prop := 0 < hint ∧ hint ≤ c.blockSize.toNat

theorem null_not_lt {count : UInt32} : ¬LFS_BLOCK_NULL < count := by
  rw [UInt32.lt_iff_toNat_lt]
  have := count.toNat_lt
  have hnull : LFS_BLOCK_NULL.toNat = 4294967295 := rfl
  omega

theorem ne_null_of_lt {block count : UInt32} (hb : block < count) : block ≠ LFS_BLOCK_NULL :=
  fun h => null_not_lt (h ▸ hb)

section Read

variable {σ : Type} {cb : Callbacks σ} {c : LfsConfig} {shows : σ → Device UInt8 → Prop}
  {dev : Device UInt8} {pcache : Option Cache} {rcache : Cache} {block : UInt32} {off size : Nat}

theorem Cache.Sized.hits_iff {cache : Cache} (hs : cache.Sized c) (hb : block ≠ LFS_BLOCK_NULL) :
    cache.Hits block off ↔ block = cache.block ∧ off < cache.off + cache.size := by
  refine and_congr_right fun heq => ?_
  rw [add32_eq (hs.fits (heq ▸ hb))]

theorem toNat_inj_block {block block' : UInt32} : block.toNat = block'.toNat ↔ block = block' :=
  UInt32.toNat_inj

theorem Cache.bytes_eq {cache : Cache} {dev : Device UInt8} {b n : Nat}
    (h : cache.buffer.take cache.size = dev.read b cache.off cache.size) (hle : cache.off ≤ off)
    (hn : n ≤ cache.size - (off - cache.off)) (hoff : off ≤ cache.off + cache.size) :
    cache.bytes off n = dev.read b off n := by
  have hread : ((dev.read b cache.off cache.size).drop (off - cache.off)).take n = dev.read b off n := by
    rw [dev.read_drop (by omega), dev.read_take hn, Nat.add_sub_cancel' hle]
  rw [← hread, ← h, List.drop_take, List.take_take, Nat.min_eq_left hn, Cache.bytes]

theorem rcached_spec (hr : rcache.Coherent c dev) (hb : block < c.blockCount) (hsize : 0 < size)
    {diff : Nat} {bytes : List UInt8} (h : rcached rcache block off size = some (diff, bytes)) :
    0 < diff ∧ diff ≤ size ∧ bytes = dev.read block.toNat off diff := by
  rw [rcached] at h
  split at h
  · rename_i hhit
    obtain ⟨hhit, hle⟩ := hhit
    obtain ⟨rfl, hlt⟩ := (hr.hits_iff (ne_null_of_lt hb)).mp hhit
    cases h
    refine ⟨by omega, Nat.min_le_left _ _, ?_⟩
    exact Cache.bytes_eq (hr.bytes hb) hle (Nat.min_le_right _ _) (by omega)
  · cases h

/-- Where the program cache has nothing, the device shows through. -/
theorem overlay_read_of_not {pcache : Cache} {n : Nat} (hs : pcache.Sized c)
    (h : block ≠ pcache.block ∨ off + n ≤ pcache.off ∨ pcache.off + pcache.size ≤ off) :
    (overlay (some pcache) dev).read block.toNat off n = dev.read block.toNat off n := by
  have hlen : (pcache.buffer.take pcache.size).length = pcache.size := by
    rw [List.length_take]
    exact Nat.min_eq_left hs.size
  refine Device.read_congr fun i hi => ?_
  rw [overlay, Device.prog_outside]
  rcases h with h | h | h
  · exact .inl fun heq => h (toNat_inj_block.mp heq)
  · exact .inr (.inl (by omega))
  · exact .inr (.inr (by omega))

theorem bdCached_spec (hr : rcache.Coherent c dev) (hp : ∀ p ∈ pcache, p.Sized c)
    (hb : block < c.blockCount) (hsize : 0 < size) {diff : Nat} {bytes : List UInt8}
    (h : bdCached pcache rcache block off size = some (diff, bytes)) :
    0 < diff ∧ diff ≤ size ∧ bytes = (overlay pcache dev).read block.toNat off diff := by
  rw [bdCached] at h
  cases pcache with
  | none => exact rcached_spec hr hb hsize h
  | some pcache =>
    have hps := hp pcache rfl
    have hhits : pcache.Hits block off ↔ block = pcache.block ∧ off < pcache.off + pcache.size :=
      hps.hits_iff (ne_null_of_lt hb)
    rw [Option.filter_some] at h
    by_cases hhit : pcache.Hits block off
    · simp only [hhit, decide_true, if_true] at h
      obtain ⟨rfl, hlt⟩ := hhits.mp hhit
      split at h
      · rename_i hle
        cases h
        refine ⟨by omega, Nat.min_le_left _ _, ?_⟩
        refine Cache.bytes_eq ?_ hle (Nat.min_le_right _ _) (by omega)
        have hlen : (pcache.buffer.take pcache.size).length = pcache.size := by
          rw [List.length_take]
          exact Nat.min_eq_left hps.size
        have hread := dev.read_prog pcache.block.toNat pcache.off
          (show 0 + pcache.size ≤ (pcache.buffer.take pcache.size).length by omega)
        rw [Nat.add_zero, List.drop_zero, List.take_take, Nat.min_self] at hread
        exact hread.symm
      · rename_i hle
        obtain ⟨h₀, hdiff, hbytes⟩ := rcached_spec hr hb (by omega) h
        refine ⟨h₀, by omega, ?_⟩
        rw [overlay_read_of_not hps (.inr (.inl (by omega)))]
        exact hbytes
    · simp only [hhit, decide_false, Bool.false_eq_true, if_false] at h
      obtain ⟨h₀, hdiff, hbytes⟩ := rcached_spec hr hb hsize h
      refine ⟨h₀, hdiff, ?_⟩
      rw [overlay_read_of_not hps]
      · exact hbytes
      · by_cases hblock : block = pcache.block
        · exact .inr (.inr (Nat.le_of_not_lt fun hlt => hhit (hhits.mpr ⟨hblock, hlt⟩)))
        · exact .inl hblock

theorem load_spec (hc : Workable c) {hint : Nat} (hh : GoodHint c hint) (hoff : off < c.blockSize.toNat) :
    loadOff c off ≤ off ∧ off < loadOff c off + loadSize c hint off ∧
      loadOff c off + loadSize c hint off ≤ c.blockSize.toNat ∧
      loadSize c hint off ≤ c.cacheSize.toNat := by
  obtain ⟨hpos, hhint⟩ := hh
  have hread := readSize_pos hc.toLfsInit
  have hcache := readSize_le_cacheSize hc.toLfsInit
  have hblock := cacheSize_le_blockSize hc.toLfsInit
  have hsmall := hc.small
  have hle := lfsAligndown_le off c.readSize.toNat
  have hlt := lt_lfsAligndown_add hread off
  have hup := le_lfsAlignup hread (show off + hint + c.readSize.toNat ≤ 2 ^ 32 by omega)
  have hstart : lfsAligndown off c.readSize.toNat ≤
      min (lfsAlignup (off + hint) c.readSize.toNat) c.blockSize.toNat := by omega
  have hend : min (lfsAlignup (off + hint) c.readSize.toNat) c.blockSize.toNat < 2 ^ 32 := by omega
  rw [loadSize, loadOff, add32_eq (show off + hint < 2 ^ 32 by omega), sub32_eq hstart hend]
  omega

theorem load_serves (hs : ServesReads cb c shows) (hc : Workable c) {hint : Nat} (hh : GoodHint c hint)
    {w w' : σ} (hw : shows w dev) (hr : rcache.Coherent c dev) (hb : block < c.blockCount)
    (hoff : off < c.blockSize.toNat) {err : Int} {buffer : List UInt8}
    (h : cb.read block (loadOff c off).toUInt32 rcache.buffer (loadSize c hint off).toUInt32 w =
      ((err, buffer), w')) :
    shows w' dev ∧ (err = 0 ∧
      Cache.Coherent c dev ⟨block, loadOff c off, loadSize c hint off, buffer⟩ ∨
        err < 0 ∧ Cache.Sized c ⟨block, loadOff c off, loadSize c hint off, buffer⟩) := by
  obtain ⟨hle, hlt, hblock, hcache⟩ := load_spec hc hh hoff
  have hsmall := hc.small
  have hfits : loadOff c off + loadSize c hint off < 2 ^ 32 := by omega
  have eoff : (loadOff c off).toUInt32.toNat = loadOff c off :=
    toNat_toUInt32 (a := c.blockSize) (by omega)
  have esize : (loadSize c hint off).toUInt32.toNat = loadSize c hint off := toNat_toUInt32 hcache
  obtain ⟨hw', hres⟩ := hs.read hw hb (by rw [eoff, esize]; exact hblock)
    (by rw [esize, hr.length]; exact hcache) h
  refine ⟨hw', hres.imp ?_ ?_⟩
  · rintro ⟨herr, hbuf⟩
    refine ⟨herr, ?_⟩
    rw [eoff, esize] at hbuf
    have hlen : (dev.read block.toNat (loadOff c off) (loadSize c hint off)).length =
        loadSize c hint off := Device.read_length _ _ _ _
    refine ⟨⟨?_, ?_, fun _ => hfits⟩, fun _ => ?_⟩
    · rw [hbuf, List.length_append, hlen, List.length_drop, hr.length]
      omega
    · show loadSize c hint off ≤ buffer.length
      rw [hbuf, List.length_append, hlen]
      omega
    · rw [hbuf]
      exact List.take_left' hlen
  · rintro ⟨herr, hlen⟩
    refine ⟨herr, hlen.trans hr.length, ?_, fun _ => hfits⟩
    show loadSize c hint off ≤ buffer.length
    rw [hlen, hr.length]
    exact hcache

theorem isSome_bdCached (hh : rcache.Hits block off) (hle : rcache.off ≤ off) :
    (bdCached pcache rcache block off size).isSome := by
  have hr : ∀ n, (rcached rcache block off n).isSome := fun n => by rw [rcached, if_pos ⟨hh, hle⟩]; rfl
  rw [bdCached]
  split
  · exact hr _
  · split
    · rfl
    · exact hr _

theorem bdReadLoop_zero (hint : Nat) (fuel : Nat) (data : List UInt8) (w : σ) :
    bdReadLoop cb c pcache hint block fuel off 0 data rcache w = some ((0, data), rcache, w) := by
  cases fuel <;> rw [bdReadLoop, if_pos rfl]

theorem bdReadLoop_cached (hz : size ≠ 0) {diff : Nat} {bytes : List UInt8}
    (hcached : bdCached pcache rcache block off size = some (diff, bytes)) (hfits : off + diff < 2 ^ 32)
    (hint : Nat) (fuel : Nat) (data : List UInt8) (w : σ) :
    bdReadLoop cb c pcache hint block (fuel + 1) off size data rcache w =
      bdReadLoop cb c pcache hint block fuel (off + diff) (size - diff) (data ++ bytes) rcache w := by
  rw [bdReadLoop, if_neg hz, hcached]
  simp only [add32_eq hfits]

theorem bdReadLoop_load (hz : size ≠ 0) (hcached : bdCached pcache rcache block off size = none)
    (hb : block < c.blockCount) {hint : Nat} {w w' : σ} {err : Int} {buffer : List UInt8}
    (hread : cb.read block (loadOff c off).toUInt32 rcache.buffer (loadSize c hint off).toUInt32 w =
      ((err, buffer), w')) (fuel : Nat) (data : List UInt8) :
    bdReadLoop cb c pcache hint block (fuel + 1) off size data rcache w =
      if err ≠ 0 then some ((err, data), ⟨block, loadOff c off, loadSize c hint off, buffer⟩, w')
      else bdReadLoop cb c pcache hint block fuel off size data
        ⟨block, loadOff c off, loadSize c hint off, buffer⟩ w' := by
  rw [bdReadLoop, if_neg hz, hcached]
  show (if c.blockCount ≤ block then none else _) = _
  rw [if_neg (UInt32.not_le.mpr hb), hread]

theorem hits_load (hc : Workable c) {hint : Nat} (hh : GoodHint c hint) (hoff : off < c.blockSize.toNat)
    (buffer : List UInt8) :
    Cache.Hits ⟨block, loadOff c off, loadSize c hint off, buffer⟩ block off := by
  obtain ⟨-, hlt, hblock, -⟩ := load_spec hc hh hoff
  have hsmall := hc.small
  refine ⟨rfl, ?_⟩
  show off < add32 (loadOff c off) (loadSize c hint off)
  rw [add32_eq (show loadOff c off + loadSize c hint off < 2 ^ 32 by omega)]
  exact hlt

theorem bdReadLoop_spec (hs : ServesReads cb c shows) (hc : Workable c) {hint : Nat} (hh : GoodHint c hint)
    (hp : ∀ p ∈ pcache, p.Sized c) (hb : block < c.blockCount) {fuel : Nat} {w : σ}
    (hw : shows w dev) (hr : rcache.Coherent c dev) (data : List UInt8)
    {off size : Nat} (hoff : off + size ≤ c.blockSize.toNat)
    (hfuel : 2 * size ≤ fuel + (if (bdCached pcache rcache block off size).isSome then 1 else 0)) :
    ∃ err data' rcache' w',
      bdReadLoop cb c pcache hint block fuel off size data rcache w =
        some ((err, data'), rcache', w') ∧ shows w' dev ∧
      (err = 0 ∧ data' = data ++ (overlay pcache dev).read block.toNat off size ∧
          rcache'.Coherent c dev ∨ err < 0 ∧ rcache'.Sized c ∧ rcache'.block = block) := by
  have hsmall := hc.small
  induction fuel generalizing off size data rcache w with
  | zero =>
    obtain rfl : size = 0 := by
      split at hfuel <;> omega
    rw [bdReadLoop_zero]
    exact ⟨_, _, _, _, rfl, hw, .inl ⟨rfl, by simp [Device.read], hr⟩⟩
  | succ fuel ih =>
    by_cases hz : size = 0
    · subst hz
      rw [bdReadLoop_zero]
      exact ⟨_, _, _, _, rfl, hw, .inl ⟨rfl, by simp [Device.read], hr⟩⟩
    · cases hcached : bdCached pcache rcache block off size with
      | some piece =>
        obtain ⟨diff, bytes⟩ := piece
        obtain ⟨h₀, hdiff, hbytes⟩ := bdCached_spec hr hp hb (by omega) hcached
        rw [hcached, if_pos Option.isSome_some] at hfuel
        obtain ⟨err, data', rcache', w', heq, hw', hres⟩ :=
          ih hw hr (data ++ bytes) (show off + diff + (size - diff) ≤ c.blockSize.toNat by omega)
            (by omega)
        rw [bdReadLoop_cached hz hcached (by omega)]
        refine ⟨err, data', rcache', w', heq, hw', hres.imp_left ?_⟩
        rintro ⟨herr, hdata, hr'⟩
        refine ⟨herr, ?_, hr'⟩
        rw [hdata, hbytes, List.append_assoc, ← Device.read_add, Nat.add_sub_cancel' hdiff]
      | none =>
        rw [hcached, if_neg (by rw [Option.isSome_none]; decide)] at hfuel
        cases hread : cb.read block (loadOff c off).toUInt32 rcache.buffer
            (loadSize c hint off).toUInt32 w with
        | mk res w₁ =>
          obtain ⟨err, buffer⟩ := res
          obtain ⟨hw₁, hres⟩ := load_serves hs hc hh hw hr hb (by omega) hread
          have hlt : off < c.blockSize.toNat := by omega
          rw [bdReadLoop_load hz hcached hb hread]
          rcases hres with ⟨herr, hr₁⟩ | ⟨herr, hsized⟩
          · rw [if_neg (not_not.mpr herr)]
            refine ih hw₁ hr₁ data hoff ?_
            have hhit : Cache.Hits ⟨block, loadOff c off, loadSize c hint off, buffer⟩ block off :=
              hits_load hc hh hlt buffer
            rw [if_pos (isSome_bdCached hhit (load_spec hc hh hlt).1)]
            omega
          · rw [if_pos (by omega)]
            exact ⟨_, _, _, _, rfl, hw₁, .inr ⟨herr, hsized, rfl⟩⟩

/-- A read through the caches is a read of the device and of the program cache, or it is not in the
block, or an access to the device failed. -/
theorem bdRead_spec (hs : ServesReads cb c shows) (hc : Workable c) {hint : Nat} (hh : GoodHint c hint)
    (hp : ∀ p ∈ pcache, p.Sized c) (hb : block < c.blockCount) {w : σ} (hw : shows w dev)
    (hr : rcache.Coherent c dev) (hfits : off + size < 2 ^ 32) :
    ∃ err data rcache' w',
      bdRead cb c pcache rcache hint block off size w = some ((err, data), rcache', w') ∧
      shows w' dev ∧
      (err = 0 ∧ off + size ≤ c.blockSize.toNat ∧
          data = (overlay pcache dev).read block.toNat off size ∧ rcache'.Coherent c dev ∨
        err = LFS_ERR_CORRUPT ∧ c.blockSize.toNat < off + size ∧ rcache' = rcache ∨
        err < 0 ∧ off + size ≤ c.blockSize.toNat ∧ rcache'.Sized c ∧ rcache'.block = block) := by
  rw [bdRead, if_neg (ne_null_of_lt hb), add32_eq hfits]
  by_cases hoff : c.blockSize.toNat < off + size
  · rw [if_pos hoff]
    exact ⟨_, _, _, _, rfl, hw, .inr (.inl ⟨rfl, hoff, rfl⟩)⟩
  · rw [if_neg hoff]
    obtain ⟨err, data, rcache', w', heq, hw', hres⟩ :=
      bdReadLoop_spec hs hc hh hp hb hw hr [] (Nat.le_of_not_lt hoff) (Nat.le_add_right _ _)
    refine ⟨err, data, rcache', w', heq, hw', ?_⟩
    rcases hres with ⟨herr, hdata, hr'⟩ | ⟨herr, hsized⟩
    · exact .inl ⟨herr, by omega, by rw [hdata, List.nil_append], hr'⟩
    · exact .inr (.inr ⟨herr, by omega, hsized⟩)

/-! ### Without failures -/

/-- What `lfs_bd_read` answers for a hint, a block, an offset and a size. -/
abbrev BdRead := Nat → UInt32 → Nat → Nat → Option (Except Int (List UInt8))

def emptyCache (c : LfsConfig) : Cache := ⟨LFS_BLOCK_NULL, 0, 0, List.replicate c.cacheSize.toNat 0xff⟩

/-- `lfs_bd_read` on a device where no access fails, with nothing in the caches. -/
def deviceRead (c : LfsConfig) (dev : Device UInt8) : BdRead := fun hint block off size =>
  (bdRead memoryCallbacks c none (emptyCache c) hint block off size dev).map fun r =>
    if r.1.1 ≠ 0 then .error r.1.1 else .ok r.1.2

theorem emptyCache_coherent (c : LfsConfig) (dev : Device UInt8) : (emptyCache c).Coherent c dev where
  length := List.length_replicate
  size := Nat.zero_le _
  fits h := absurd rfl h
  bytes h := absurd h null_not_lt

theorem bdReadLoop_memory {hint fuel : Nat} {w w' : Device UInt8} {data data' : List UInt8} {err : Int}
    {rcache' : Cache} (h : bdReadLoop memoryCallbacks c pcache hint block fuel off size data rcache w =
      some ((err, data'), rcache', w')) : err = 0 := by
  induction fuel generalizing off size data rcache w with
  | zero =>
    rw [bdReadLoop] at h
    split at h
    · cases h
      rfl
    · cases h
  | succ fuel ih =>
    rw [bdReadLoop] at h
    split at h
    · cases h
      rfl
    · dsimp only at h
      split at h
      · exact ih h
      · split at h
        · cases h
        · exact ih h

theorem bdRead_memory (hc : Workable c) {hint : Nat} (hh : GoodHint c hint) (hb : block < c.blockCount)
    (hr : rcache.Coherent c dev) (hfit : off + size ≤ c.blockSize.toNat) :
    ∃ rcache', bdRead memoryCallbacks c none rcache hint block off size dev =
      some ((0, dev.read block.toNat off size), rcache', dev) ∧ rcache'.Coherent c dev := by
  have hnone : ∀ p ∈ (none : Option Cache), p.Sized c := by rintro p ⟨⟩
  obtain ⟨err, data, rcache', w', heq, rfl, hres⟩ :=
    bdReadLoop_spec (memoryCallbacks_serve c).toServesReads hc hh hnone hb rfl hr [] hfit
      (Nat.le_add_right _ _)
  rw [bdRead, if_neg (ne_null_of_lt hb), hc.add32_eq hfit, if_neg (Nat.not_lt.mpr hfit), heq]
  rcases hres with ⟨rfl, rfl, hr'⟩ | ⟨herr, -⟩
  · exact ⟨rcache', rfl, hr'⟩
  · rw [bdReadLoop_memory heq] at herr
    cases herr

theorem deviceRead_ok (hc : Workable c) {hint : Nat} (hh : GoodHint c hint) (hb : block < c.blockCount)
    (hfit : off + size ≤ c.blockSize.toNat) :
    deviceRead c dev hint block off size = some (.ok (dev.read block.toNat off size)) := by
  obtain ⟨rcache', heq, -⟩ := bdRead_memory hc hh hb (emptyCache_coherent c dev) hfit
  rw [deviceRead, heq]
  rfl

theorem deviceRead_self (hc : Workable c) (hb : block < c.blockCount)
    (hfit : off + size ≤ c.blockSize.toNat) :
    deviceRead c dev size block off size = some (.ok (dev.read block.toNat off size)) := by
  rcases Nat.eq_zero_or_pos size with rfl | hpos
  · rw [deviceRead, bdRead, if_neg (ne_null_of_lt hb), add32_eq (by have := hc.small; omega),
      if_neg (by omega), bdReadLoop_zero]
    rfl
  · exact deviceRead_ok hc ⟨hpos, by omega⟩ hb hfit

theorem deviceRead_corrupt {hint : Nat} (hb : block ≠ LFS_BLOCK_NULL) (hfits : off + size < 2 ^ 32)
    (hoff : c.blockSize.toNat < off + size) :
    deviceRead c dev hint block off size = some (.error LFS_ERR_CORRUPT) := by
  rw [deviceRead, bdRead, if_neg hb, add32_eq hfits, if_pos hoff]
  rfl

/-! ### After an error -/

/-- When an access fails, the cache claims the place all the same. -/
theorem bdReadLoop_error (hc : Workable c) {hint : Nat} (hh : GoodHint c hint) (hs : ServesReads cb c shows)
    (hp : ∀ p ∈ pcache, p.Sized c) (hb : block < c.blockCount) {fuel : Nat} {w w' : σ} (hw : shows w dev)
    (hr : rcache.Coherent c dev) {data data' : List UInt8} {err : Int} {rcache' : Cache}
    (hoff : off + size ≤ c.blockSize.toNat)
    (h : bdReadLoop cb c pcache hint block fuel off size data rcache w =
      some ((err, data'), rcache', w')) (herr : err ≠ 0) :
    ∃ k < size, data'.length = data.length + k ∧ rcache'.Hits block (off + k) ∧
      rcache'.off ≤ off + k ∧ rcache'.off + rcache'.size ≤ c.blockSize.toNat ∧
      ∀ p ∈ pcache, ¬(p.Hits block (off + k) ∧ p.off ≤ off + k) := by
  have hsmall := hc.small
  induction fuel generalizing off size data rcache w with
  | zero =>
    rw [bdReadLoop] at h
    split at h
    · cases h
      exact absurd rfl herr
    · cases h
  | succ fuel ih =>
    by_cases hz : size = 0
    · subst hz
      rw [bdReadLoop_zero] at h
      cases h
      exact absurd rfl herr
    · cases hcached : bdCached pcache rcache block off size with
      | some piece =>
        obtain ⟨diff, bytes⟩ := piece
        obtain ⟨h₀, hdiff, hbytes⟩ := bdCached_spec hr hp hb (by omega) hcached
        rw [bdReadLoop_cached hz hcached (by omega)] at h
        obtain ⟨k, hk, hlen, hhit, hle, hin, hnot⟩ := ih hw hr (by omega) h
        rw [Nat.add_assoc] at hhit hle hnot
        refine ⟨diff + k, by omega, ?_, hhit, hle, hin, hnot⟩
        rw [hlen, List.length_append, hbytes, Device.read_length]
        omega
      | none =>
        cases hread : cb.read block (loadOff c off).toUInt32 rcache.buffer
            (loadSize c hint off).toUInt32 w with
        | mk res w₁ =>
          obtain ⟨err₁, buffer⟩ := res
          obtain ⟨hw₁, hres⟩ := load_serves hs hc hh hw hr hb (by omega) hread
          have hlt : off < c.blockSize.toNat := by omega
          obtain ⟨hle, -, hin, -⟩ := load_spec hc hh hlt
          rw [bdReadLoop_load hz hcached hb hread] at h
          split at h
          · cases h
            have hhit : Cache.Hits ⟨block, loadOff c off, loadSize c hint off, buffer⟩ block off :=
              hits_load hc hh hlt buffer
            refine ⟨0, by omega, rfl, ?_⟩
            rw [Nat.add_zero]
            refine ⟨hhit, hle, hin, fun p hp hhas => ?_⟩
            cases hp
            rw [bdCached, Option.filter_some, if_pos (decide_eq_true hhas.1)] at hcached
            simp only [if_pos hhas.2] at hcached
            cases hcached
          · rename_i hok
            exact ih hw₁ (hres.resolve_right (by omega)).2 hoff h

/-- The byte that could not be read is then read without an error, and without an access to the
device. -/
theorem bdRead_after_error (hs : ServesReads cb c shows) (hc : Workable c) {hint : Nat} (hh : GoodHint c hint)
    (hp : ∀ p ∈ pcache, p.Sized c) (hb : block < c.blockCount) {w w' : σ} (hw : shows w dev)
    (hr : rcache.Coherent c dev) {data : List UInt8} {err : Int} {rcache' : Cache}
    (hoff : off + size ≤ c.blockSize.toNat)
    (h : bdRead cb c pcache rcache hint block off size w = some ((err, data), rcache', w'))
    (herr : err ≠ 0) (hint' : Nat) (w'' : σ) :
    bdRead cb c pcache rcache' hint' block (off + data.length) 1 w'' =
      some ((0, rcache'.bytes (off + data.length) 1), rcache', w'') := by
  have hsmall := hc.small
  rw [bdRead, if_neg (ne_null_of_lt hb), add32_eq (by omega), if_neg (by omega)] at h
  obtain ⟨k, hk, hlen, hhit, hle, hin, hnot⟩ := bdReadLoop_error hc hh hs hp hb hw hr hoff h herr
  obtain rfl : data.length = k := by simpa using hlen
  have hlt : off + data.length < rcache'.off + rcache'.size := by
    have hlt := hhit.2
    rw [add32_eq (by omega)] at hlt
    exact hlt
  have hr' : rcached rcache' block (off + data.length) 1 = some (1, rcache'.bytes (off + data.length) 1) := by
    rw [rcached, if_pos ⟨hhit, hle⟩]
    simp only
    rw [Nat.min_eq_left (by omega)]
  have hcached : bdCached pcache rcache' block (off + data.length) 1 =
      some (1, rcache'.bytes (off + data.length) 1) := by
    rw [bdCached]
    split
    · exact hr'
    · rename_i p hfilter
      obtain ⟨hmem, hhas⟩ := Option.filter_eq_some_iff.mp hfilter
      have hbefore : ¬p.off ≤ off + data.length := fun hle => hnot p hmem ⟨by simpa using hhas, hle⟩
      rw [if_neg hbefore, Nat.min_eq_left (by omega)]
      exact hr'
  rw [bdRead, if_neg (ne_null_of_lt hb), add32_eq (by omega), if_neg (by omega)]
  simp only [bdReadLoop, hcached, Nat.one_ne_zero, if_false, Nat.sub_self, if_true, List.nil_append]

/-- Ones that cannot be read, and then the zeros the cache was made with. -/
theorem bdRead_after_error_eightBlocks :
    ∃ rcache' w', bdRead brokenCallbacks eightBlocks none ⟨LFS_BLOCK_NULL, 0, 0, List.replicate 8 0⟩ 4 2 16
        4 (fun _ _ => 1) = some ((LFS_ERR_CORRUPT, []), rcache', w') ∧
      bdRead brokenCallbacks eightBlocks none rcache' 4 2 16 1 w' = some ((0, [0]), rcache', w') := by
  have hrun : (bdRead brokenCallbacks eightBlocks none ⟨LFS_BLOCK_NULL, 0, 0, List.replicate 8 0⟩ 4 2 16 4
      (fun _ _ => 1)).map (fun r => (r.1, r.2.1)) =
        some ((LFS_ERR_CORRUPT, []), ⟨2, 16, 8, List.replicate 8 0⟩) := by
    decide +kernel
  obtain ⟨⟨_, _, w'⟩, hread, heq⟩ := Option.map_eq_some_iff.mp hrun
  cases heq
  have hcoh : Cache.Coherent eightBlocks (fun _ _ => 1) ⟨LFS_BLOCK_NULL, 0, 0, List.replicate 8 0⟩ :=
    ⟨⟨rfl, Nat.zero_le _, fun h => absurd rfl h⟩, fun _ => rfl⟩
  exact ⟨_, w', hread, bdRead_after_error (brokenCallbacks_serve _) eightBlocks_workable
    (show 0 < 4 ∧ 4 ≤ 104 by decide) (by rintro p ⟨⟩) (by decide) rfl hcoh (by decide) hread (by decide) 4 w'⟩

end Read

/-! ## The steps of a flush -/

theorem not_null_of_lt {block count : UInt32} (hb : block < count)
    (hcount : count ≤ LFS_BLOCK_INLINE) : ¬(block = LFS_BLOCK_NULL ∨ block = LFS_BLOCK_INLINE) := by
  rintro (rfl | rfl)
  · exact null_not_lt hb
  · rw [UInt32.lt_iff_toNat_lt] at hb
    rw [UInt32.le_iff_toNat_le] at hcount
    omega

theorem bdFlush_eq {σ : Type} {cb : Callbacks σ} {c : LfsConfig} {pcache rcache : Cache}
    (hb : pcache.block < c.blockCount) (hcount : c.blockCount ≤ LFS_BLOCK_INLINE)
    (validate : Bool) {w w₁ : σ} {err : Int}
    (hprog : cb.prog pcache.block pcache.off.toUInt32 pcache.buffer (flushSize c pcache).toUInt32 w =
      (err, w₁)) :
    bdFlush cb c pcache rcache validate w =
      if err ≠ 0 then some (err, pcache, rcache, w₁)
      else if validate then
        match bdCmp cb c none (lfsCacheDrop rcache) (flushSize c pcache) pcache.block pcache.off
          (pcache.buffer.take (flushSize c pcache)) w₁ with
        | none => none
        | some (.error res, rcache, w) => some (res, pcache, rcache, w)
        | some (.ok res, rcache, w) =>
          if res ≠ .eq then some (LFS_ERR_CORRUPT, pcache, rcache, w)
          else some (0, lfsCacheZero c pcache, rcache, w)
      else some (0, lfsCacheZero c pcache, rcache, w₁) := by
  rw [bdFlush, if_neg (not_null_of_lt hb hcount), if_neg (by rwa [UInt32.not_le]), hprog]

end LfsTool
