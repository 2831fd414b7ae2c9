import LfsTool.CtzExtend
import LfsTool.ProgCache

/-!
# LfsTool.CachedBlocks

The caches as what `lfs_ctz_extend` writes through. A block that is erased may still be in the read
cache as it was, so only live blocks are read, and no live block is written.

* `cachedBlocks`: `lfs_bd_erase`, `lfs_bd_read`, a validated `lfs_bd_prog` and `lfs_cache_drop`.
* `CachedShows`: the device with what is in the program cache, and a read cache that is right about the
  live blocks. `cachedBlocks_lawful`: the operations keep this.
-/

namespace LfsTool

open BlockArray

structure Cached (σ : Type) where
  pcache : Cache
  rcache : Cache
  w : σ

def cachedBlocks {σ : Type} (cb : Callbacks σ) (c : LfsConfig)
    (alloc : Cached σ → Option (Except Int UInt32 × Cached σ)) : Blocks (Cached σ) where
  alloc := alloc
  erase block s :=
    match bdErase cb c block s.w with
    | none => none
    | some (err, w) => some (err, { s with w })
  read block off hint size s :=
    match bdRead cb c none s.rcache hint block off size s.w with
    | none => none
    | some ((err, data), rcache, w) => some (if err ≠ 0 then .error err else .ok data, { s with rcache, w })
  prog block off data s :=
    match bdProg cb c s.pcache s.rcache true block off data s.w with
    | none => none
    | some (err, pcache, rcache, w) => some (err, ⟨pcache, rcache, w⟩)
  drop s := { s with pcache := lfsCacheDrop s.pcache }

/-- What the cache has of a live block is what the device has. -/
structure Cache.CoherentOn (c : LfsConfig) (dev : Device UInt8) (live : UInt32 → Prop) (cache : Cache) :
    Prop extends cache.Sized c where
  bytes : cache.block < c.blockCount → live cache.block →
    cache.buffer.take cache.size = dev.read cache.block.toNat cache.off cache.size

/-- Nothing is in the program cache, or a block is being written that is not live. -/
inductive CachedShows {σ : Type} (shows : σ → Device UInt8 → Prop) (c : LfsConfig)
    (live : UInt32 → Prop) (s : Cached σ) : Device UInt8 → Option (UInt32 × Nat) → Prop where
  | idle {dev : Device UInt8} (hw : shows s.w dev) (hp : s.pcache.Sized c)
      (hnull : s.pcache.block = LFS_BLOCK_NULL) (hr : s.rcache.CoherentOn c dev live) :
      CachedShows shows c live s dev none
  | writing {dev₀ dev : Device UInt8} {block : UInt32} {data : List UInt8} (hw : shows s.w dev)
      (hpend : Pending c dev₀ block 0 data s.pcache dev) (hfree : ¬live block)
      (hr : s.rcache.CoherentOn c dev live) :
      CachedShows shows c live s (dev₀.prog block.toNat 0 data) (some (block, data.length))

section Read

variable {σ : Type} {cb : Callbacks σ} {c : LfsConfig} {shows : σ → Device UInt8 → Prop}
  {dev dev' : Device UInt8} {rcache : Cache} {block : UInt32} {live : UInt32 → Prop}

theorem Cache.CoherentOn.coherent (h : rcache.CoherentOn c dev live) (hlive : live rcache.block) :
    rcache.Coherent c dev := ⟨h.toSized, fun hb => h.bytes hb hlive⟩

theorem Cache.Coherent.on (h : rcache.Coherent c dev) (live : UInt32 → Prop) :
    rcache.CoherentOn c dev live := ⟨h.toSized, fun hb _ => h.bytes hb⟩

theorem Cache.CoherentBut.on (h : rcache.CoherentBut c dev block) (hfree : ¬live block) :
    rcache.CoherentOn c dev live :=
  ⟨h.toSized, fun hb hlive => h.others hb fun heq => hfree (heq ▸ hlive)⟩

theorem Cache.CoherentOn.of_frame (h : rcache.CoherentOn c dev live) (hfree : ¬live block)
    (hframe : ∀ b ≠ block.toNat, dev' b = dev b) : rcache.CoherentOn c dev' live where
  toSized := h.toSized
  bytes hb hlive := by
    rw [h.bytes hb hlive]
    refine Device.read_congr fun o _ => ?_
    rw [hframe _ fun heq => hfree (UInt32.toNat_inj.mp heq ▸ hlive)]

/-- A cache with another block is as good as an empty one. -/
theorem bdRead_drop (hc : Workable c) (hne : rcache.block ≠ block) (hnull : LFS_BLOCK_NULL ≠ block)
    (hint : Nat) {off size : Nat} (hsize : 0 < size) (hfit : off + size ≤ c.blockSize.toNat) (w : σ) :
    bdRead cb c none rcache hint block off size w =
      bdRead cb c none (lfsCacheDrop rcache) hint block off size w := by
  have hmiss : ∀ cache : Cache, cache.block ≠ block → bdCached none cache block off size = none := by
    intro cache hblock
    rw [bdCached, Option.filter_none]
    exact if_neg fun hhit => hblock hhit.1.1.symm
  obtain ⟨k, hk⟩ : ∃ k, 2 * size = k + 1 := ⟨2 * size - 1, by omega⟩
  have hz : size ≠ 0 := by omega
  have hsmall := hc.small
  rw [bdRead, bdRead, if_neg hnull.symm, if_neg hnull.symm, add32_eq (show off + size < 2 ^ 32 by omega),
    if_neg (by omega), if_neg (by omega), hk, bdReadLoop, if_neg hz, hmiss rcache hne, bdReadLoop, if_neg hz,
    hmiss (lfsCacheDrop rcache) hnull]
  rfl

theorem bdRead_live (hs : ServesReads cb c shows) (hc : Workable c)
    (hcount : c.blockCount ≤ LFS_BLOCK_INLINE) {hint off size : Nat} (hh : GoodHint c hint)
    (hsize : 0 < size) (hfit : off + size ≤ c.blockSize.toNat) (hb : block < c.blockCount)
    (hlive : live block) {w w' : σ} (hw : shows w dev) (hr : rcache.CoherentOn c dev live)
    {data : List UInt8} {rcache' : Cache}
    (h : bdRead cb c none rcache hint block off size w = some ((0, data), rcache', w')) :
    shows w' dev ∧ rcache'.Coherent c dev ∧ data = dev.read block.toNat off size := by
  have hread : ∀ {cache : Cache}, cache.Coherent c dev →
      bdRead cb c none cache hint block off size w = some ((0, data), rcache', w') →
      shows w' dev ∧ rcache'.Coherent c dev ∧ data = dev.read block.toNat off size := by
    intro cache hcoh h
    have hnone : ∀ p ∈ (none : Option Cache), p.Sized c := by rintro p ⟨⟩
    obtain ⟨err, data', cache', w'', heq, hw'', hres⟩ :=
      bdRead_spec hs hc hh hnone hb hw hcoh (show off + size < 2 ^ 32 by have := hc.small; omega)
    rw [h] at heq
    cases heq
    rcases hres with ⟨-, -, hdata, hcoh'⟩ | ⟨herr, -⟩ | ⟨herr, -⟩
    · exact ⟨hw'', hcoh', hdata⟩
    · cases herr
    · omega
  by_cases hblock : rcache.block = block
  · exact hread (hr.coherent (hblock ▸ hlive)) h
  · have hnull : LFS_BLOCK_NULL ≠ block := fun heq => not_null_of_lt hb hcount (.inl heq.symm)
    rw [bdRead_drop hc hblock hnull hint hsize hfit] at h
    exact hread hr.toSized.drop_coherent h

end Read

section Lawful

variable {σ : Type} {cb : Callbacks σ} {c : LfsConfig} {shows : σ → Device UInt8 → Prop}
  {live : UInt32 → Prop} {s s' : Cached σ} {dev : Device UInt8} {cur : Option (UInt32 × Nat)}
  {alloc : Cached σ → Option (Except Int UInt32 × Cached σ)}

theorem CachedShows.read (hs : Serves cb c shows) (hc : Workable c)
    (hcount : c.blockCount ≤ LFS_BLOCK_INLINE) {block : UInt32} {off hint size : Nat}
    {data : List UInt8} (h : CachedShows shows c live s dev cur) (hb : block < c.blockCount)
    (hlive : live block) (hh : GoodHint c hint) (hsize : 0 < size) (hfit : off + size ≤ c.blockSize.toNat)
    (hread : (cachedBlocks cb c alloc).read block off hint size s = some (.ok data, s')) :
    CachedShows shows c live s' dev cur ∧ data = dev.read block.toNat off size := by
  have hfields : bdRead cb c none s.rcache hint block off size s.w =
      some ((0, data), s'.rcache, s'.w) ∧ s'.pcache = s.pcache := by
    simp only [cachedBlocks] at hread
    split at hread
    · cases hread
    · rename_i err data' rcache w heq
      rw [heq]
      split at hread
      · cases hread
      · rename_i hok
        cases hread
        rw [not_not.mp hok]
        exact ⟨rfl, rfl⟩
  obtain ⟨hbd, hpcache⟩ := hfields
  cases h with
  | idle hw hp hnull hr =>
    obtain ⟨hw', hr', hdata⟩ :=
      bdRead_live hs.toServesReads hc hcount hh hsize hfit hb hlive hw hr hbd
    exact ⟨.idle hw' (hpcache ▸ hp) (hpcache ▸ hnull) (hr'.on live), hdata⟩
  | @writing dev₀ dev₁ written data' hw hpend hfree hr =>
    obtain ⟨hw', hr', hdata⟩ :=
      bdRead_live hs.toServesReads hc hcount hh hsize hfit hb hlive hw hr hbd
    refine ⟨.writing hw' (hpcache ▸ hpend) hfree (hr'.on live), ?_⟩
    rw [hdata]
    refine Device.read_congr fun o _ => ?_
    have hne : block.toNat ≠ written.toNat := fun heq => hfree (UInt32.toNat_inj.mp heq ▸ hlive)
    rw [hpend.frame _ hne, dev₀.prog_outside (.inl hne)]

theorem CachedShows.prog (hs : Serves cb c shows) (hc : Workable c)
    (hcount : c.blockCount ≤ LFS_BLOCK_INLINE) {block : UInt32} {off : Nat} {rest : List UInt8}
    {err : Int} (h : CachedShows shows c live s dev cur) (hb : block < c.blockCount)
    (hfree : ¬live block) (hcur : Continues cur block off)
    (hfit : off + rest.length ≤ c.blockSize.toNat)
    (hprog : (cachedBlocks cb c alloc).prog block off rest s = some (err, s')) :
    err = 0 ∧ CachedShows shows c live s' (dev.prog block.toNat off rest)
        (some (block, off + rest.length)) ∨
      err < 0 ∧ ∃ dev', CachedShows shows c live ((cachedBlocks cb c alloc).drop s') dev' none ∧
        ∀ b ≠ block.toNat, dev' b = dev b := by
  have hbd : bdProg cb c s.pcache s.rcache true block off rest s.w =
      some (err, s'.pcache, s'.rcache, s'.w) := by
    simp only [cachedBlocks] at hprog
    split at hprog
    · cases hprog
    · rename_i heq
      cases hprog
      exact heq
  -- an idle program cache is one with nothing pending
  have hstart : ∃ dev₀ dev₁ data, shows s.w dev₁ ∧ Pending c dev₀ block 0 data s.pcache dev₁ ∧
      s.rcache.CoherentOn c dev₁ live ∧ off = data.length ∧ dev = dev₀.prog block.toNat 0 data := by
    cases h with
    | idle hw hp hnull hr =>
      rcases hcur with ⟨-, rfl⟩ | hcur
      · exact ⟨dev, dev, [], hw, .start hp hnull, hr, rfl, by simp⟩
      · cases hcur
    | writing hw hpend _ hr =>
      rcases hcur with ⟨hcur, -⟩ | hcur
      · cases hcur
      · cases hcur
        exact ⟨_, _, _, hw, hpend, hr, rfl, rfl⟩
  obtain ⟨dev₀, dev₁, data, hw, hpend, hr, rfl, rfl⟩ := hstart
  obtain ⟨err', pcache', rcache', w', dev', heq, hw', hframe, hres⟩ :=
    bdProg_spec hs hc hcount hb (Nat.dvd_zero _) true hw hpend hr.toSized
      (show 0 + data.length + rest.length ≤ c.blockSize.toNat by omega)
  rw [Nat.zero_add, hbd] at heq
  cases heq
  have hback : ∀ b ≠ block.toNat, dev' b = dev₁ b := fun b hne =>
    (hframe b hne).trans (hpend.frame b hne).symm
  rcases hres with ⟨rfl, hpend', hload⟩ | ⟨herr, hsized, hbut⟩
  · refine .inl ⟨rfl, ?_⟩
    have htwo := dev₀.prog_prog block.toNat 0 data rest
    rw [Nat.zero_add] at htwo
    rw [htwo, ← List.length_append]
    refine .writing hw' hpend' hfree ?_
    rcases hload with ⟨hsame, -⟩ | ⟨-, hcoh⟩
    · rw [hsame]
      exact hr.of_frame hfree hback
    · exact hcoh.on live
  · refine .inr ⟨herr, dev', .idle hw' hsized.drop rfl ?_, fun b hne => ?_⟩
    · rcases hbut with hsame | hbut
      · show s'.rcache.CoherentOn c dev' live
        rw [hsame]
        exact hr.of_frame hfree hback
      · exact (hbut.of_frame hframe).on hfree
    · rw [hframe b hne]
      funext o
      exact (dev₀.prog_outside (.inl hne)).symm

theorem cachedBlocks_lawful (hs : Serves cb c shows) (hc : Workable c)
    (hcount : c.blockCount ≤ LFS_BLOCK_INLINE)
    (halloc : ∀ {s s' dev block}, CachedShows shows c live s dev none →
      alloc s = some (.ok block, s') →
      CachedShows shows c live s' dev none ∧ block < c.blockCount ∧ ¬live block) :
    (cachedBlocks cb c alloc).Lawful c live (CachedShows shows c live) where
  alloc := halloc
  erase h hb hfree herase := by
    cases h with
    | idle hw hp hnull hr =>
      simp only [cachedBlocks, bdErase, if_neg (UInt32.not_le.mpr hb)] at herase
      cases herase
      rcases hs.erase hw hb rfl with ⟨herr, hw'⟩ | ⟨herr, dev', hw', hframe⟩
      · refine .inl ⟨herr, .idle hw' hp hnull (hr.of_frame hfree fun b hne => ?_)⟩
        funext o
        exact if_neg hne
      · exact .inr ⟨herr, dev', .idle hw' hp hnull (hr.of_frame hfree hframe), hframe⟩
  read h hb hlive hh hsize hfit hread := h.read hs hc hcount hb hlive hh hsize hfit hread
  prog h hb hfree hcur hfit hprog := h.prog hs hc hcount hb hfree hcur hfit hprog
  drop h := by
    cases h with
    | idle hw hp hnull hr => exact .idle hw hp.drop rfl hr

/-- An image file and an allocator with the block 5 only. -/
theorem cachedBlocks_lawful_eightBlocks :
    (cachedBlocks (imageCallbacks (fileStdio lateFailure) eightBlocks) eightBlocks fun s =>
      some (.ok 5, s)).Lawful eightBlocks (fun b => b < 5)
      (CachedShows (imageShows eightBlocks) eightBlocks (fun b => b < 5)) :=
  cachedBlocks_lawful (imageCallbacks_serve (by decide)) eightBlocks_workable (by decide) (by
    rintro s _ dev block h ⟨⟩
    exact ⟨h, by decide, by decide⟩)

end Lawful

end LfsTool
