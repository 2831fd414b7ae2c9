import LfsTool.Caches

/-!
# LfsTool.ProgCache

Programming through a cache: `lfs_bd_cmp`, `lfs_bd_flush`, `lfs_bd_sync` and `lfs_bd_prog`.

* `bdCmp_spec`: the comparison is the one of the bytes the device has.
* `bdFlush_validated`: after a validated flush that returns 0 the data is on the device, whatever the
  device did when it was programmed.
* `Pending`: data is programmed from some place of a block on, part of it still in the cache.
* `bdProg_spec`, `bdFlush_spec`: one call keeps that, a flush ends it.
* `bdProgAll_sync`: any pieces of data, one after the other, are on the device after a sync, and
  nothing else is different but the padding.
-/

namespace LfsTool

open BlockArray

section Cmp

variable {σ : Type} {cb : Callbacks σ} {c : LfsConfig} {shows : σ → Device UInt8 → Prop}
  {dev : Device UInt8} {pcache : Option Cache} {rcache : Cache} {block : UInt32} {off : Nat}

/-! ## Comparing -/

/-- The order of the first bytes that differ. -/
def cmpBytes : List UInt8 → List UInt8 → LfsCmp
  | dat :: data, b :: buffer =>
    if dat ≠ b then if dat < b then .lt else .gt else cmpBytes data buffer
  | _, _ => .eq

theorem cmpBytes_eq_iff {data buffer : List UInt8} (h : data.length = buffer.length) :
    cmpBytes data buffer = .eq ↔ data = buffer := by
  induction data generalizing buffer with
  | nil =>
    rw [List.length_nil, eq_comm, List.length_eq_zero_iff] at h
    subst h
    simp [cmpBytes]
  | cons dat data ih =>
    cases buffer with
    | nil => cases h
    | cons b buffer =>
      rw [cmpBytes, List.cons.injEq]
      by_cases hne : dat = b
      · rw [if_neg (not_not.mpr hne), ih (Nat.succ.inj h)]
        exact (and_iff_right hne).symm
      · rw [if_pos hne]
        constructor
        · intro heq
          split at heq <;> cases heq
        · exact fun heq => absurd heq.1 hne

/-- A cache that has what the device has of every block but one. -/
structure Cache.CoherentBut (c : LfsConfig) (dev : Device UInt8) (block : UInt32) (cache : Cache) : Prop
    extends cache.Sized c where
  others : cache.block < c.blockCount → cache.block ≠ block →
    cache.buffer.take cache.size = dev.read cache.block.toNat cache.off cache.size

theorem Cache.Coherent.but (h : rcache.Coherent c dev) (block : UInt32) :
    rcache.CoherentBut c dev block := ⟨h.toSized, fun hb _ => h.bytes hb⟩

theorem Cache.CoherentBut.of_frame {dev' : Device UInt8} (h : rcache.CoherentBut c dev block)
    (hframe : ∀ b ≠ block.toNat, dev' b = dev b) : rcache.CoherentBut c dev' block where
  toSized := h.toSized
  others hb hne := by
    rw [h.others hb hne]
    refine Device.read_congr fun o _ => ?_
    rw [hframe _ fun heq => hne (UInt32.toNat_inj.mp heq)]

theorem bdCmpLoop_spec (hs : ServesReads cb c shows) (hc : Workable c) (hp : ∀ p ∈ pcache, p.Sized c)
    (hb : block < c.blockCount) {hint i : Nat} {buffer : List UInt8} (hh : i + buffer.length ≤ hint)
    (hblock : hint ≤ c.blockSize.toNat) (hoff : off ≤ c.blockSize.toNat) {w : σ} (hw : shows w dev)
    (hr : rcache.Coherent c dev) :
    ∃ res rcache' w', bdCmpLoop cb c pcache hint block off i buffer rcache w = some (res, rcache', w') ∧
      shows w' dev ∧
      (res = .ok (cmpBytes ((overlay pcache dev).read block.toNat (off + i) buffer.length) buffer) ∧
          rcache'.Coherent c dev ∨ (∃ e < 0, res = .error e) ∧ rcache'.CoherentBut c dev block) := by
  have hsmall := hc.small
  induction buffer generalizing i rcache w with
  | nil => exact ⟨_, _, _, rfl, hw, .inl ⟨rfl, hr⟩⟩
  | cons b buffer ih =>
    rw [List.length_cons] at hh
    have hgood : GoodHint c (hint - i) := ⟨by omega, by omega⟩
    obtain ⟨err, data, rcache₁, w₁, heq, hw₁, hres⟩ :=
      bdRead_spec hs hc hgood hp hb hw hr (show off + i + 1 < 2 ^ 32 by omega)
    rw [bdCmpLoop, sub32_eq (show i ≤ hint by omega) (show hint < 2 ^ 32 by omega),
      add32_eq (show off + i < 2 ^ 32 by omega), heq]
    simp only
    have hcons : (overlay pcache dev).read block.toNat (off + i) (buffer.length + 1) =
        overlay pcache dev block.toNat (off + i) ::
          (overlay pcache dev).read block.toNat (off + (i + 1)) buffer.length := by
      rw [Nat.add_comm buffer.length, Device.read_add]
      rfl
    rw [List.length_cons, hcons, cmpBytes]
    have hfail : err < 0 → ∃ e < 0, (Except.error err : Except Int LfsCmp) = .error e :=
      fun he => ⟨err, he, rfl⟩
    rcases hres with ⟨herr, -, rfl, hr₁⟩ | ⟨rfl, -, rfl⟩ | ⟨herr, -, hsized, hsame⟩
    · have hone : (overlay pcache dev).read block.toNat (off + i) 1 =
          [overlay pcache dev block.toNat (off + i)] := rfl
      rw [if_neg (not_not.mpr herr), hone]
      by_cases hne : overlay pcache dev block.toNat (off + i) = b
      · rw [if_neg (by rw [hne]; exact not_not.mpr rfl), if_neg (not_not.mpr hne)]
        exact ih (by omega) hw₁ hr₁
      · rw [if_pos (by simpa using hne), if_pos hne]
        exact ⟨_, _, _, rfl, hw₁, .inl ⟨rfl, hr₁⟩⟩
    · exact ⟨_, _, _, rfl, hw₁, .inr ⟨hfail (by decide), hr.but block⟩⟩
    · rw [if_pos (show err ≠ 0 by omega)]
      exact ⟨_, _, _, rfl, hw₁, .inr ⟨hfail herr, hsized, fun _ hne => absurd hsame hne⟩⟩

theorem bdCmp_spec (hs : ServesReads cb c shows) (hc : Workable c) (hp : ∀ p ∈ pcache, p.Sized c)
    (hb : block < c.blockCount) {hint : Nat} {buffer : List UInt8} (hh : buffer.length ≤ hint)
    (hblock : hint ≤ c.blockSize.toNat) (hoff : off ≤ c.blockSize.toNat) {w : σ} (hw : shows w dev)
    (hr : rcache.Coherent c dev) :
    ∃ res rcache' w', bdCmp cb c pcache rcache hint block off buffer w = some (res, rcache', w') ∧
      shows w' dev ∧
      (res = .ok (cmpBytes ((overlay pcache dev).read block.toNat off buffer.length) buffer) ∧
          rcache'.Coherent c dev ∨ (∃ e < 0, res = .error e) ∧ rcache'.CoherentBut c dev block) :=
  bdCmpLoop_spec hs hc hp hb (i := 0) (by omega) hblock hoff hw hr

/-! ### Without failures -/

/-- What `lfs_bd_cmp` answers for a hint, a block, an offset and a buffer. -/
abbrev BdCmp := Nat → UInt32 → Nat → List UInt8 → Option (Except Int LfsCmp)

/-- `lfs_bd_cmp` on a device where no access fails, with nothing in the caches. -/
def deviceCmp (c : LfsConfig) (dev : Device UInt8) : BdCmp := fun hint block off buffer =>
  (bdCmp memoryCallbacks c none (emptyCache c) hint block off buffer dev).map Prod.fst

theorem bdCmpLoop_memory (hc : Workable c) (hb : block < c.blockCount) {hint i : Nat} {buffer : List UInt8}
    (hh : i + buffer.length ≤ hint) (hfit : off + hint ≤ c.blockSize.toNat) (hr : rcache.Coherent c dev) :
    ∃ rcache', bdCmpLoop memoryCallbacks c none hint block off i buffer rcache dev =
      some (.ok (cmpBytes (dev.read block.toNat (off + i) buffer.length) buffer), rcache', dev) := by
  have hsmall := hc.small
  induction buffer generalizing i rcache with
  | nil => exact ⟨rcache, rfl⟩
  | cons b buffer ih =>
    rw [List.length_cons] at hh
    have hgood : GoodHint c (hint - i) := ⟨by omega, by omega⟩
    have hone : off + i + 1 ≤ c.blockSize.toNat := by omega
    obtain ⟨rcache', heq, hr'⟩ := bdRead_memory hc hgood hb hr hone
    have hcons : dev.read block.toNat (off + i) (buffer.length + 1) =
        dev block.toNat (off + i) :: dev.read block.toNat (off + (i + 1)) buffer.length := by
      rw [Nat.add_comm buffer.length, Device.read_add]
      rfl
    have hbyte : dev.read block.toNat (off + i) 1 = [dev block.toNat (off + i)] := rfl
    rw [bdCmpLoop, sub32_eq (show i ≤ hint by omega) (show hint < 2 ^ 32 by omega),
      add32_eq (show off + i < 2 ^ 32 by omega), heq, List.length_cons, hcons, cmpBytes, hbyte]
    by_cases hne : dev block.toNat (off + i) = b
    · simp only [hne, ne_eq, not_true_eq_false, if_false]
      exact ih (by omega) hr'
    · simp only [ne_eq, not_true_eq_false, if_false, List.cons.injEq, and_true, hne, not_false_eq_true, if_true]
      exact ⟨rcache', rfl⟩

theorem deviceCmp_eq (dev : Device UInt8) (hc : Workable c) (hb : block < c.blockCount) (off : Nat)
    (buffer : List UInt8) (hfit : off + buffer.length ≤ c.blockSize.toNat) :
    deviceCmp c dev buffer.length block off buffer =
      some (.ok (cmpBytes (dev.read block.toNat off buffer.length) buffer)) := by
  obtain ⟨rcache', heq⟩ :=
    bdCmpLoop_memory (i := 0) hc hb (Nat.le_of_eq (Nat.zero_add _)) hfit (emptyCache_coherent c dev)
  rw [deviceCmp, bdCmp, heq]
  rfl

end Cmp

/-! ## Flushing -/

section Flush

variable {σ : Type} {cb : Callbacks σ} {c : LfsConfig} {shows : σ → Device UInt8 → Prop}
  {dev : Device UInt8} {pcache rcache : Cache}

theorem Cache.Sized.drop (h : rcache.Sized c) : (lfsCacheDrop rcache).Sized c :=
  ⟨h.length, h.size, fun hne => absurd rfl hne⟩

theorem Cache.Sized.drop_coherent (h : rcache.Sized c) : (lfsCacheDrop rcache).Coherent c dev :=
  ⟨h.drop, fun hb => absurd hb null_not_lt⟩

theorem Workable.sum_le (hc : Workable c) {n : Nat} (hn : n ≤ c.blockSize.toNat) :
    n + c.progSize.toNat ≤ 2 ^ 32 := by
  have hsmall := hc.small
  have hprog := progSize_le_cacheSize hc.toLfsInit
  have hcache := cacheSize_le_blockSize hc.toLfsInit
  omega

theorem Cache.Sized.size_le (hp : pcache.Sized c) : pcache.size ≤ c.cacheSize.toNat := by
  rw [← hp.length]
  exact hp.size

theorem flushSize_le (hc : Workable c) (hp : pcache.Sized c) : flushSize c pcache ≤ c.cacheSize.toNat := by
  have hcache := cacheSize_le_blockSize hc.toLfsInit
  exact lfsAlignup_le (progSize_pos hc.toLfsInit) (hc.sum_le (Nat.le_trans hp.size_le hcache)) hp.size_le
    (progSize_dvd_cacheSize hc.toLfsInit)

theorem validate_spec (hs : ServesReads cb c shows) (hc : Workable c) (hb : pcache.block < c.blockCount)
    (hp : pcache.Sized c) (hr : rcache.Sized c) (hfit : pcache.off + flushSize c pcache ≤ c.blockSize.toNat)
    {w : σ} (hw : shows w dev) :
    ∃ res rcache' w', bdCmp cb c none (lfsCacheDrop rcache) (flushSize c pcache) pcache.block
        pcache.off (pcache.buffer.take (flushSize c pcache)) w = some (res, rcache', w') ∧
      shows w' dev ∧
      (res = .ok (cmpBytes (dev.read pcache.block.toNat pcache.off (flushSize c pcache))
          (pcache.buffer.take (flushSize c pcache))) ∧ rcache'.Coherent c dev ∨
        (∃ e < 0, res = .error e) ∧ rcache'.CoherentBut c dev pcache.block) := by
  have hlen : (pcache.buffer.take (flushSize c pcache)).length = flushSize c pcache := by
    rw [List.length_take, hp.length]
    exact Nat.min_eq_left (flushSize_le hc hp)
  have hnone : ∀ p ∈ (none : Option Cache), p.Sized c := by rintro p ⟨⟩
  have hcmp := bdCmp_spec hs hc hnone hb (Nat.le_of_eq hlen) (Nat.le_trans (Nat.le_add_left ..) hfit)
    (Nat.le_trans (Nat.le_add_right ..) hfit) hw hr.drop_coherent
  rwa [hlen] at hcmp

/-- Whatever `prog` did, a validated flush that returns 0 has left the data on the device. -/
theorem bdFlush_validated (hs : ServesReads cb c shows) (hc : Workable c)
    (hcount : c.blockCount ≤ LFS_BLOCK_INLINE) (hb : pcache.block < c.blockCount)
    (hp : pcache.Sized c) (hr : rcache.Sized c)
    (hfit : pcache.off + flushSize c pcache ≤ c.blockSize.toNat) {w w' : σ} (hw : shows w dev)
    {pcache' rcache' : Cache}
    (h : bdFlush cb c pcache rcache true w = some (0, pcache', rcache', w')) :
    ∃ dev', shows w' dev' ∧ dev'.read pcache.block.toNat pcache.off (flushSize c pcache) =
      pcache.buffer.take (flushSize c pcache) := by
  have hflush := flushSize_le hc hp
  cases hprog : cb.prog pcache.block pcache.off.toUInt32 pcache.buffer
      (flushSize c pcache).toUInt32 w with
  | mk err w₁ =>
    obtain ⟨-, dev', hw₁⟩ := hs.progs hw hb
      (by rw [toNat_toUInt32 (a := c.blockSize) (by omega), toNat_toUInt32 hflush]; exact hfit)
      (by rw [toNat_toUInt32 hflush, hp.length]; exact hflush) hprog
    rw [bdFlush_eq hb hcount true hprog] at h
    split at h
    · rename_i herr
      cases h
      exact absurd rfl herr
    · obtain ⟨res, rcache₁, w₂, hcmp, hw₂, hres⟩ := validate_spec hs hc hb hp hr hfit hw₁
      rw [if_pos rfl, hcmp] at h
      rcases hres with ⟨rfl, -⟩ | ⟨⟨e, he, rfl⟩, -⟩
      · simp only at h
        split at h
        · cases h
        · rename_i heq
          cases h
          refine ⟨dev', hw₂, (cmpBytes_eq_iff ?_).mp (not_not.mp heq)⟩
          rw [Device.read_length, List.length_take, hp.length]
          exact (Nat.min_eq_left hflush).symm
      · cases h
        omega

theorem bdFlush_validated_eightBlocks :
    ∃ pcache' rcache' w', bdFlush memoryCallbacks eightBlocks ⟨2, 16, 5, [1, 2, 3, 4, 5, 255, 255, 255]⟩
        ⟨LFS_BLOCK_NULL, 0, 0, List.replicate 8 0⟩ true (fun _ _ => 0) = some (0, pcache', rcache', w') ∧
      ∃ dev', w' = dev' ∧ dev'.read 2 16 8 = [1, 2, 3, 4, 5, 255, 255, 255] := by
  have hrun : (bdFlush memoryCallbacks eightBlocks ⟨2, 16, 5, [1, 2, 3, 4, 5, 255, 255, 255]⟩
      ⟨LFS_BLOCK_NULL, 0, 0, List.replicate 8 0⟩ true (fun _ _ => 0)).map Prod.fst = some 0 := by
    decide +kernel
  obtain ⟨⟨_, pcache', rcache', w'⟩, hflush, rfl⟩ := Option.map_eq_some_iff.mp hrun
  have hsize : flushSize eightBlocks ⟨2, 16, 5, [1, 2, 3, 4, 5, 255, 255, 255]⟩ = 8 := by decide +kernel
  have hread := bdFlush_validated (memoryCallbacks_serve _).toServesReads eightBlocks_workable (by decide)
    (by decide) ⟨rfl, by decide, fun _ => by decide⟩ ⟨rfl, Nat.zero_le _, fun h => absurd rfl h⟩
    (by rw [hsize]; decide) rfl hflush
  rw [hsize] at hread
  exact ⟨pcache', rcache', w', hflush, hread⟩

/-- What a read cache is after programming: what it was, which is out of date when the device has
changed, or loaded from the device while the data was compared. -/
def Reloaded (c : LfsConfig) (validate : Bool) (dev dev' : Device UInt8) (rcache rcache' : Cache) : Prop :=
  rcache' = rcache ∧ (validate = true → dev' = dev) ∨ validate = true ∧ rcache'.Coherent c dev'

theorem Reloaded.refl (c : LfsConfig) (validate : Bool) (dev : Device UInt8) (rcache : Cache) :
    Reloaded c validate dev dev rcache rcache := .inl ⟨rfl, fun _ => rfl⟩

theorem Reloaded.trans {validate : Bool} {dev dev' dev'' : Device UInt8}
    {rcache rcache' rcache'' : Cache} (h : Reloaded c validate dev dev' rcache rcache')
    (h' : Reloaded c validate dev' dev'' rcache' rcache'') :
    Reloaded c validate dev dev'' rcache rcache'' := by
  rcases h' with ⟨rfl, hdev'⟩ | h'
  · rcases h with ⟨rfl, hdev⟩ | ⟨hv, hcoh⟩
    · exact .inl ⟨rfl, fun hv => (hdev' hv).trans (hdev hv)⟩
    · exact .inr ⟨hv, hdev' hv ▸ hcoh⟩
  · exact .inr h'

theorem Reloaded.sized {validate : Bool} {dev dev' : Device UInt8} {rcache rcache' : Cache}
    (h : Reloaded c validate dev dev' rcache rcache') (hr : rcache.Sized c) : rcache'.Sized c := by
  rcases h with ⟨rfl, -⟩ | ⟨-, hcoh⟩
  · exact hr
  · exact hcoh.toSized

/-- On a device that does what it is asked for, a flush programs the cache and empties it. -/
theorem bdFlush_spec' (hs : Serves cb c shows) (hc : Workable c)
    (hcount : c.blockCount ≤ LFS_BLOCK_INLINE) (hb : pcache.block < c.blockCount)
    (hp : pcache.Sized c) (hr : rcache.Sized c)
    (hfit : pcache.off + flushSize c pcache ≤ c.blockSize.toNat) (validate : Bool) {w : σ}
    (hw : shows w dev) :
    ∃ err pcache' rcache' w' dev', bdFlush cb c pcache rcache validate w =
        some (err, pcache', rcache', w') ∧ shows w' dev' ∧
      (∀ b ≠ pcache.block.toNat, dev' b = dev b) ∧
      (err = 0 ∧ dev' = dev.prog pcache.block.toNat pcache.off
            (pcache.buffer.take (flushSize c pcache)) ∧
          pcache' = lfsCacheZero c pcache ∧ Reloaded c validate dev dev' rcache rcache' ∨
        err < 0 ∧ pcache'.Sized c ∧
          (rcache' = rcache ∨ rcache'.CoherentBut c dev' pcache.block)) := by
  have hflush := flushSize_le hc hp
  have eoff : pcache.off.toUInt32.toNat = pcache.off := toNat_toUInt32 (a := c.blockSize) (by omega)
  have esize : (flushSize c pcache).toUInt32.toNat = flushSize c pcache := toNat_toUInt32 hflush
  have hother : ∀ (dev : Device UInt8) (data : List UInt8), ∀ b ≠ pcache.block.toNat,
      dev.prog pcache.block.toNat pcache.off data b = dev b := fun dev data b hne => by
    funext o
    exact dev.prog_outside (.inl hne)
  cases hprog : cb.prog pcache.block pcache.off.toUInt32 pcache.buffer
      (flushSize c pcache).toUInt32 w with
  | mk err w₁ =>
    rw [bdFlush_eq hb hcount validate hprog]
    have hres := hs.prog hw hb (by rw [eoff, esize]; exact hfit)
      (by rw [esize, hp.length]; exact hflush) hprog
    rw [eoff, esize] at hres
    rcases hres with ⟨herr, hw₁⟩ | ⟨herr, dev', hw₁, hframe⟩
    · rw [if_neg (not_not.mpr herr)]
      cases validate with
      | false =>
        exact ⟨_, _, _, _, _, rfl, hw₁, hother dev _,
          .inl ⟨rfl, rfl, rfl, .inl ⟨rfl, Bool.noConfusion⟩⟩⟩
      | true =>
        obtain ⟨res, rcache₁, w₂, hcmp, hw₂, hcmpres⟩ :=
          validate_spec hs.toServesReads hc hb hp hr hfit hw₁
        rw [if_pos rfl, hcmp]
        rcases hcmpres with ⟨rfl, hr₁⟩ | ⟨⟨e, he, rfl⟩, hbut⟩
        · have hlen : 0 + flushSize c pcache ≤
              (pcache.buffer.take (flushSize c pcache)).length := by
            rw [List.length_take, hp.length, Nat.min_eq_left hflush, Nat.zero_add]
          have hread := dev.read_prog pcache.block.toNat pcache.off hlen
          rw [Nat.add_zero, List.drop_zero, List.take_take, Nat.min_self] at hread
          have heq : cmpBytes ((dev.prog pcache.block.toNat pcache.off
              (pcache.buffer.take (flushSize c pcache))).read pcache.block.toNat pcache.off
                (flushSize c pcache)) (pcache.buffer.take (flushSize c pcache)) = .eq :=
            (cmpBytes_eq_iff (by rw [hread])).mpr hread
          simp only [heq, ne_eq, not_true_eq_false, if_false]
          exact ⟨_, _, _, _, _, rfl, hw₂, hother dev _,
            .inl ⟨rfl, rfl, rfl, .inr ⟨rfl, hr₁⟩⟩⟩
        · exact ⟨_, _, _, _, _, rfl, hw₂, hother dev _, .inr ⟨he, hp, .inr hbut⟩⟩
    · rw [if_pos (by omega)]
      exact ⟨_, _, _, _, dev', rfl, hw₁, hframe, .inr ⟨herr, hp, .inl rfl⟩⟩

end Flush

/-! ## Programming -/

/-- `data` is programmed from `o` on in a block of `dev₀`: `dev` is the device, and what is not on it
is in the cache. -/
structure Pending (c : LfsConfig) (dev₀ : Device UInt8) (block : UInt32) (o : Nat)
    (data : List UInt8) (pcache : Cache) (dev : Device UInt8) : Prop where
  sized : pcache.Sized c
  split : ∃ f ≤ data.length, c.cacheSize.toNat ∣ f ∧
    dev = dev₀.prog block.toNat o (data.take f) ∧
    (pcache.block = LFS_BLOCK_NULL ∧ f = data.length ∨
      pcache.block = block ∧ pcache.off = o + f ∧ pcache.size = data.length - f ∧
        pcache.size < c.cacheSize.toNat ∧ pcache.buffer.take pcache.size = data.drop f)

section Prog

variable {σ : Type} {cb : Callbacks σ} {c : LfsConfig} {shows : σ → Device UInt8 → Prop}
  {dev₀ dev : Device UInt8} {pcache rcache : Cache} {block : UInt32} {o : Nat}
  {data rest : List UInt8}

theorem Pending.start (hp : pcache.Sized c) (hnull : pcache.block = LFS_BLOCK_NULL) :
    Pending c dev block o [] pcache dev :=
  ⟨hp, 0, Nat.zero_le _, Nat.dvd_zero _, by simp, .inl ⟨hnull, rfl⟩⟩

theorem Pending.frame (h : Pending c dev₀ block o data pcache dev) :
    ∀ b ≠ block.toNat, dev b = dev₀ b := by
  obtain ⟨f, -, -, rfl, -⟩ := h.split
  intro b hb
  funext i
  exact dev₀.prog_outside (.inl hb)

theorem Cache.Sized.zero (hp : pcache.Sized c) : (lfsCacheZero c pcache).Sized c where
  length := List.length_replicate
  size := Nat.le_trans hp.size_le (Nat.le_of_eq List.length_replicate.symm)
  fits h := absurd rfl h

theorem Pending.copy (hp : pcache.Sized c) {f : Nat} (hf : f ≤ data.length)
    (hoff : pcache.off = o + f) (hsize : pcache.size = data.length - f)
    (hlt : pcache.size < c.cacheSize.toNat)
    (hbuf : pcache.buffer.take pcache.size = data.drop f) (hrest : rest ≠ [])
    (hfits : o + data.length + rest.length < 2 ^ 32) :
    let diff := progDiff c pcache (o + data.length) rest.length
    let pcache' := progCopy c pcache (o + data.length) rest
    0 < diff ∧ diff ≤ rest.length ∧ pcache'.Sized c ∧ pcache'.size = pcache.size + diff ∧
      pcache'.buffer.take pcache'.size = (data ++ rest.take diff).drop f := by
  have hpos : 0 < rest.length := List.length_pos_iff.mpr hrest
  have hat : o + data.length - pcache.off = pcache.size := by omega
  have hdiff : progDiff c pcache (o + data.length) rest.length =
      min rest.length (c.cacheSize.toNat - pcache.size) := by rw [progDiff, hat]
  have hmax : (progCopy c pcache (o + data.length) rest).size =
      pcache.size + progDiff c pcache (o + data.length) rest.length := by
    show max pcache.size _ = _
    omega
  intro diff pcache'
  have htake : (rest.take diff).length = diff := by
    rw [List.length_take]
    omega
  have hbuffer : pcache'.buffer = overwrite pcache.buffer pcache.size (rest.take diff) := by
    show overwrite pcache.buffer (o + data.length - pcache.off) _ = _
    rw [hat]
  have hlen : pcache'.buffer.length = c.cacheSize.toNat := by
    rw [hbuffer, overwrite_length (by rw [htake, hp.length]; omega), hp.length]
  have hfits' : pcache'.off + pcache'.size < 2 ^ 32 := by
    have hoff' : pcache'.off = pcache.off := rfl
    rw [hoff', hmax]
    omega
  refine ⟨by omega, by omega, ⟨hlen, by rw [hlen, hmax]; omega, fun _ => hfits'⟩, hmax, ?_⟩
  have hlen₁ : (pcache.buffer.take pcache.size ++ rest.take diff).length = pcache'.size := by
    rw [List.length_append, List.length_take, htake, hp.length, hmax]
    omega
  rw [hbuffer, overwrite, ← hlen₁, List.take_left, hbuf, List.drop_append_of_le_length hf]

theorem Pending.flushed (hd : c.cacheSize.toNat ∣ c.cacheSize.toNat) {f : Nat} (hf : f ≤ data.length)
    (hdvd : c.cacheSize.toNat ∣ f) (hoff : pcache.off = o + f)
    (hlen : (data ++ rest).length = f + c.cacheSize.toNat)
    (hbuf : pcache.buffer.take c.cacheSize.toNat = (data ++ rest).drop f) {pcache' : Cache}
    (hsized : pcache'.Sized c) (hnull : pcache'.block = LFS_BLOCK_NULL) :
    Pending c dev₀ block o (data ++ rest) pcache'
      ((dev₀.prog block.toNat o (data.take f)).prog block.toNat pcache.off
        (pcache.buffer.take c.cacheSize.toNat)) := by
  refine ⟨hsized, f + c.cacheSize.toNat, by omega, Nat.dvd_add hdvd hd, ?_, .inl ⟨hnull, hlen.symm⟩⟩
  have hleft : (data ++ rest).take f = data.take f := List.take_append_of_le_length hf
  have hfl : (data.take f).length = f := by rw [List.length_take, Nat.min_eq_left hf]
  have htwo := dev₀.prog_prog block.toNat o ((data ++ rest).take f) ((data ++ rest).drop f)
  rw [hleft, hfl, ← hleft, List.take_append_drop] at htwo
  rw [hbuf, hoff, ← hleft, htwo, ← hlen, List.take_length]

theorem bdProgLoop_nil (validate : Bool) (fuel off : Nat) (w : σ) :
    bdProgLoop cb c validate block fuel off [] pcache rcache w = some (0, pcache, rcache, w) := by
  cases fuel <;> rw [bdProgLoop, if_pos rfl]

theorem bdProgLoop_prepare (hb : block < c.blockCount) (hnull : pcache.block = LFS_BLOCK_NULL)
    (hrest : rest ≠ []) (validate : Bool) (fuel off : Nat) (w : σ) :
    bdProgLoop cb c validate block (fuel + 1) off rest pcache rcache w =
      bdProgLoop cb c validate block fuel off rest
        ⟨block, lfsAligndown off c.progSize.toNat, 0, pcache.buffer⟩ rcache w := by
  have hne : ¬(block = pcache.block ∧ pcache.off ≤ off ∧ off < add32 pcache.off c.cacheSize.toNat) := by
    rintro ⟨rfl, -⟩
    exact null_not_lt (hnull ▸ hb)
  rw [bdProgLoop, if_neg hrest]
  simp only [if_neg hne]
  rw [if_neg (not_not.mpr hnull)]

theorem Pending.prepare (hc : Workable c) (ho : c.progSize.toNat ∣ o)
    (h : Pending c dev₀ block o data pcache dev) (hnull : pcache.block = LFS_BLOCK_NULL)
    (hb : block < c.blockCount) (hfits : o + data.length < 2 ^ 32) :
    Pending c dev₀ block o data
      ⟨block, lfsAligndown (o + data.length) c.progSize.toNat, 0, pcache.buffer⟩ dev := by
  obtain ⟨f, hf, hdvd, hdev, ⟨-, rfl⟩ | ⟨hblock, -⟩⟩ := h.split
  · have hprog : c.progSize.toNat ∣ o + data.length :=
      Nat.dvd_add ho (Nat.dvd_trans (progSize_dvd_cacheSize hc.toLfsInit) hdvd)
    rw [lfsAligndown, Nat.mod_eq_zero_of_dvd hprog, Nat.sub_zero]
    exact ⟨⟨h.sized.length, Nat.zero_le _, fun _ => hfits⟩, data.length, Nat.le_refl _, hdvd, hdev,
      .inr ⟨rfl, rfl, (Nat.sub_self _).symm, cacheSize_pos hc.toLfsInit,
        by rw [List.take_zero, List.drop_length]⟩⟩
  · exact absurd (hblock.symm.trans hnull) (ne_null_of_lt hb)

theorem bdProgLoop_full {off diff : Nat} {pcache₁ pcache' rcache' : Cache} {w w' : σ} {err : Int}
    (hpos : block = pcache.block ∧ pcache.off ≤ off ∧ off < pcache.off + c.cacheSize.toNat)
    (hfits : pcache.off + c.cacheSize.toNat < 2 ^ 32) (hnext : off + rest.length < 2 ^ 32) (hrest : rest ≠ [])
    (hcopy : progCopy c pcache off rest = pcache₁) (hdiff : progDiff c pcache off rest.length = diff)
    (hfull : pcache₁.size = c.cacheSize.toNat) {validate : Bool}
    (hflush : bdFlush cb c pcache₁ rcache validate w = some (err, pcache', rcache', w')) (fuel : Nat) :
    bdProgLoop cb c validate block (fuel + 1) off rest pcache rcache w =
      if err ≠ 0 then some (err, pcache', rcache', w')
      else bdProgLoop cb c validate block fuel (off + diff) (rest.drop diff) pcache' rcache' w' := by
  subst hcopy hdiff
  have hdiff : progDiff c pcache off rest.length ≤ rest.length := Nat.min_le_left _ _
  rw [bdProgLoop, if_neg hrest]
  simp only [add32_eq hfits, if_pos hpos, if_pos hfull, hflush,
    add32_eq (show off + progDiff c pcache off rest.length < 2 ^ 32 by omega)]

theorem bdProgLoop_part {off diff : Nat} {pcache₁ : Cache}
    (hpos : block = pcache.block ∧ pcache.off ≤ off ∧ off < pcache.off + c.cacheSize.toNat)
    (hfits : pcache.off + c.cacheSize.toNat < 2 ^ 32) (hnext : off + rest.length < 2 ^ 32) (hrest : rest ≠ [])
    (hcopy : progCopy c pcache off rest = pcache₁) (hdiff : progDiff c pcache off rest.length = diff)
    (hpart : pcache₁.size ≠ c.cacheSize.toNat) (validate : Bool) (fuel : Nat) (w : σ) :
    bdProgLoop cb c validate block (fuel + 1) off rest pcache rcache w =
      bdProgLoop cb c validate block fuel (off + diff) (rest.drop diff) pcache₁ rcache w := by
  subst hcopy hdiff
  have hdiff : progDiff c pcache off rest.length ≤ rest.length := Nat.min_le_left _ _
  rw [bdProgLoop, if_neg hrest]
  simp only [add32_eq hfits, if_pos hpos, if_neg hpart,
    add32_eq (show off + progDiff c pcache off rest.length < 2 ^ 32 by omega)]

theorem Pending.flush (hs : Serves cb c shows) (hc : Workable c)
    (hcount : c.blockCount ≤ LFS_BLOCK_INLINE) (hb : block < c.blockCount) (validate : Bool) {w : σ}
    (hw : shows w dev) (hr : rcache.Sized c) {f : Nat} (hf : f ≤ data.length)
    (hdvd : c.cacheSize.toNat ∣ f) (hdev : dev = dev₀.prog block.toNat o (data.take f))
    (hp : pcache.Sized c) (hblock : pcache.block = block) (hoff : pcache.off = o + f)
    (hfull : pcache.size = c.cacheSize.toNat) (hlen : (data ++ rest).length = f + c.cacheSize.toNat)
    (hbuf : pcache.buffer.take pcache.size = (data ++ rest).drop f)
    (hfit : o + (data ++ rest).length ≤ c.blockSize.toNat) :
    ∃ err pcache' rcache' w' dev', bdFlush cb c pcache rcache validate w =
        some (err, pcache', rcache', w') ∧ shows w' dev' ∧ (∀ b ≠ block.toNat, dev' b = dev₀ b) ∧
      (err = 0 ∧ Pending c dev₀ block o (data ++ rest) pcache' dev' ∧
          pcache'.block = LFS_BLOCK_NULL ∧ Reloaded c validate dev dev' rcache rcache' ∨
        err < 0 ∧ pcache'.Sized c ∧ (rcache' = rcache ∨ rcache'.CoherentBut c dev₀ block)) := by
  subst hblock
  have hflush : flushSize c pcache = c.cacheSize.toNat := by
    rw [flushSize, hfull]
    exact lfsAlignup_of_dvd (progSize_pos hc.toLfsInit)
      (hc.sum_le (cacheSize_le_blockSize hc.toLfsInit)) (progSize_dvd_cacheSize hc.toLfsInit)
  have hbefore : ∀ b ≠ pcache.block.toNat, dev b = dev₀ b := fun b hne => by
    funext i
    rw [hdev]
    exact dev₀.prog_outside (.inl hne)
  obtain ⟨err, pcache', rcache', w', dev', heq, hw', hframe, hres⟩ :=
    bdFlush_spec' hs hc hcount hb hp hr (by rw [hflush, hoff]; omega) validate hw
  have hframe₀ : ∀ b ≠ pcache.block.toNat, dev' b = dev₀ b := fun b hne =>
    (hframe b hne).trans (hbefore b hne)
  refine ⟨err, pcache', rcache', w', dev', heq, hw', hframe₀, hres.imp ?_ ?_⟩
  · rintro ⟨herr, hdev', rfl, hload⟩
    refine ⟨herr, ?_, rfl, hload⟩
    rw [hdev', hflush, hdev]
    exact Pending.flushed (Nat.dvd_refl _) hf hdvd hoff hlen (hfull ▸ hbuf) hp.zero rfl
  · rintro ⟨herr, hsized, hbut⟩
    exact ⟨herr, hsized, hbut.imp_right fun hbut => hbut.of_frame fun b hne => (hframe₀ b hne).symm⟩

/-- What the read cache may be used for after two calls, the second of which failed. -/
theorem Reloaded.failed {validate : Bool} {dev dev' : Device UInt8} {rcache rcache' rcache'' : Cache}
    (h : Reloaded c validate dev dev' rcache rcache') (hframe : ∀ b ≠ block.toNat, dev' b = dev₀ b)
    (h' : rcache'' = rcache' ∨ rcache''.CoherentBut c dev₀ block) :
    rcache'' = rcache ∨ rcache''.CoherentBut c dev₀ block := by
  rcases h' with rfl | hbut
  · refine h.imp And.left ?_
    rintro ⟨-, hcoh⟩
    exact (hcoh.but block).of_frame fun b hne => (hframe b hne).symm
  · exact .inr hbut

theorem bdProgLoop_spec (hs : Serves cb c shows) (hc : Workable c)
    (hcount : c.blockCount ≤ LFS_BLOCK_INLINE) (hb : block < c.blockCount)
    (ho : c.progSize.toNat ∣ o) (validate : Bool) {fuel : Nat} {w : σ} (hw : shows w dev)
    (h : Pending c dev₀ block o data pcache dev) (hr : rcache.Sized c)
    (hfit : o + data.length + rest.length ≤ c.blockSize.toNat)
    (hfuel : 2 * rest.length ≤ fuel + (if pcache.block = LFS_BLOCK_NULL then 0 else 1)) :
    ∃ err pcache' rcache' w' dev',
      bdProgLoop cb c validate block fuel (o + data.length) rest pcache rcache w =
        some (err, pcache', rcache', w') ∧ shows w' dev' ∧ (∀ b ≠ block.toNat, dev' b = dev₀ b) ∧
      (err = 0 ∧ Pending c dev₀ block o (data ++ rest) pcache' dev' ∧
          Reloaded c validate dev dev' rcache rcache' ∨
        err < 0 ∧ pcache'.Sized c ∧ (rcache' = rcache ∨ rcache'.CoherentBut c dev₀ block)) := by
  have hsmall := hc.small
  have hcache := cacheSize_le_blockSize hc.toLfsInit
  induction fuel generalizing data rest pcache rcache dev w with
  | zero =>
    obtain rfl : rest = [] := List.length_eq_zero_iff.mp (by split at hfuel <;> omega)
    rw [bdProgLoop_nil, List.append_nil]
    exact ⟨_, _, _, _, dev, rfl, hw, h.frame, .inl ⟨rfl, h, .refl c validate dev rcache⟩⟩
  | succ fuel ih =>
    by_cases hrest : rest = []
    · subst hrest
      rw [bdProgLoop_nil, List.append_nil]
      exact ⟨_, _, _, _, dev, rfl, hw, h.frame, .inl ⟨rfl, h, .refl c validate dev rcache⟩⟩
    by_cases hnull : pcache.block = LFS_BLOCK_NULL
    · rw [bdProgLoop_prepare hb hnull hrest]
      refine ih hw (h.prepare hc ho hnull hb (by omega)) hr hfit ?_
      rw [if_pos hnull] at hfuel
      rw [if_neg (ne_null_of_lt hb)]
      omega
    rw [if_neg hnull] at hfuel
    obtain ⟨f, hf, hdvd, hdev, ⟨hnull', -⟩ | ⟨hblock, hoff, hsize, hlt, hbuf⟩⟩ := h.split
    · exact absurd hnull' hnull
    obtain ⟨h₀, hdiff, hsized, hsize', hbuf'⟩ :=
      Pending.copy h.sized hf hoff hsize hlt hbuf hrest (by omega)
    have hblock₁ : (progCopy c pcache (o + data.length) rest).block = block := hblock
    have hoff₁ : (progCopy c pcache (o + data.length) rest).off = o + f := hoff
    have hpos : block = pcache.block ∧ pcache.off ≤ o + data.length ∧
        o + data.length < pcache.off + c.cacheSize.toNat := ⟨hblock.symm, by omega, by omega⟩
    have hfits : pcache.off + c.cacheSize.toNat < 2 ^ 32 := by omega
    have hnext : o + data.length + rest.length < 2 ^ 32 := by omega
    generalize hcopy : progCopy c pcache (o + data.length) rest = pcache₁ at *
    generalize hdiffeq : progDiff c pcache (o + data.length) rest.length = diff at *
    have htake : (rest.take diff).length = diff := by
      rw [List.length_take]
      exact Nat.min_eq_left hdiff
    have hsum : o + data.length + diff = o + (data ++ rest.take diff).length := by
      rw [List.length_append, htake]
      omega
    have hrest' : (rest.drop diff).length = rest.length - diff := List.length_drop
    have happ : data ++ rest = (data ++ rest.take diff) ++ rest.drop diff := by
      rw [List.append_assoc, List.take_append_drop]
    have hfit₁ : o + (data ++ rest.take diff).length + (rest.drop diff).length ≤ c.blockSize.toNat := by
      omega
    rw [happ]
    by_cases hfull : pcache₁.size = c.cacheSize.toNat
    · obtain ⟨err, pcache₂, rcache₂, w₂, dev₂, heq, hw₂, hframe, hres⟩ :=
        Pending.flush hs hc hcount hb validate hw hr hf hdvd hdev hsized hblock₁ hoff₁ hfull
          (show (data ++ rest.take diff).length = _ by rw [List.length_append, htake]; omega) hbuf' (by omega)
      rw [bdProgLoop_full hpos hfits hnext hrest hcopy hdiffeq hfull heq, hsum]
      rcases hres with ⟨rfl, hpend, hnull₂, hload⟩ | ⟨herr, hsized₂, hbut⟩
      · simp only [ne_eq, not_true_eq_false, if_false]
        obtain ⟨err, pcache₃, rcache₃, w₃, dev₃, heq₃, hw₃, hframe₃, hres₃⟩ :=
          ih hw₂ hpend (hload.sized hr) hfit₁ (by rw [if_pos hnull₂]; omega)
        refine ⟨err, pcache₃, rcache₃, w₃, dev₃, heq₃, hw₃, hframe₃, hres₃.imp ?_ ?_⟩
        · rintro ⟨herr, hpend₃, hload'⟩
          exact ⟨herr, hpend₃, hload.trans hload'⟩
        · rintro ⟨herr, hsized₃, hbut⟩
          exact ⟨herr, hsized₃, hload.failed hframe hbut⟩
      · simp only [if_pos (show err ≠ 0 by omega)]
        exact ⟨_, _, _, _, dev₂, rfl, hw₂, hframe, .inr ⟨herr, hsized₂, hbut⟩⟩
    · rw [bdProgLoop_part hpos hfits hnext hrest hcopy hdiffeq hfull, hsum]
      have hroom := hsized.size_le
      refine ih hw ⟨hsized, f, by rw [List.length_append]; omega, hdvd, ?_,
        .inr ⟨hblock₁, hoff₁, by rw [List.length_append, htake]; omega, by omega, hbuf'⟩⟩ hr hfit₁ ?_
      · rw [hdev, List.take_append_of_le_length hf]
      · rw [if_neg (show pcache₁.block ≠ LFS_BLOCK_NULL from hblock₁ ▸ ne_null_of_lt hb)]
        omega

theorem bdProg_spec (hs : Serves cb c shows) (hc : Workable c)
    (hcount : c.blockCount ≤ LFS_BLOCK_INLINE) (hb : block < c.blockCount)
    (ho : c.progSize.toNat ∣ o) (validate : Bool) {w : σ} (hw : shows w dev)
    (h : Pending c dev₀ block o data pcache dev) (hr : rcache.Sized c)
    (hfit : o + data.length + rest.length ≤ c.blockSize.toNat) :
    ∃ err pcache' rcache' w' dev',
      bdProg cb c pcache rcache validate block (o + data.length) rest w =
        some (err, pcache', rcache', w') ∧ shows w' dev' ∧ (∀ b ≠ block.toNat, dev' b = dev₀ b) ∧
      (err = 0 ∧ Pending c dev₀ block o (data ++ rest) pcache' dev' ∧
          Reloaded c validate dev dev' rcache rcache' ∨
        err < 0 ∧ pcache'.Sized c ∧ (rcache' = rcache ∨ rcache'.CoherentBut c dev₀ block)) := by
  have hsmall := hc.small
  rw [bdProg, add32_eq (show o + data.length + rest.length < 2 ^ 32 by omega), if_neg]
  · exact bdProgLoop_spec hs hc hcount hb ho validate hw h hr hfit (Nat.le_add_right _ _)
  · rintro (rfl | hlt)
    · exact null_not_lt hb
    · omega

/-- A flush puts what is pending on the device, and fills up the last unit. -/
theorem bdFlush_spec (hs : Serves cb c shows) (hc : Workable c)
    (hcount : c.blockCount ≤ LFS_BLOCK_INLINE) (hb : block < c.blockCount)
    (ho : c.progSize.toNat ∣ o) (validate : Bool) {w : σ} (hw : shows w dev)
    (h : Pending c dev₀ block o data pcache dev) (hr : rcache.Sized c)
    (hfit : o + data.length ≤ c.blockSize.toNat) :
    ∃ err pcache' rcache' w' dev',
      bdFlush cb c pcache rcache validate w = some (err, pcache', rcache', w') ∧ shows w' dev' ∧
      (∀ b ≠ block.toNat, dev' b = dev₀ b) ∧
      (err = 0 ∧ pcache'.Sized c ∧ pcache'.block = LFS_BLOCK_NULL ∧
          (∃ pad, (data ++ pad).length = lfsAlignup data.length c.progSize.toNat ∧
            dev' = dev₀.prog block.toNat o (data ++ pad)) ∧
          Reloaded c validate dev dev' rcache rcache' ∨ err < 0) := by
  have hsum : ∀ {n}, n ≤ data.length → n + c.progSize.toNat ≤ 2 ^ 32 := fun hn => hc.sum_le (by omega)
  obtain ⟨f, hf, hdvd, hdev, ⟨hnull, rfl⟩ | ⟨hblock, hoff, hsize, hlt, hbuf⟩⟩ := h.split
  · have hprog : c.progSize.toNat ∣ data.length := Nat.dvd_trans (progSize_dvd_cacheSize hc.toLfsInit) hdvd
    rw [bdFlush, if_pos (.inl hnull)]
    refine ⟨_, _, _, _, dev, rfl, hw, h.frame, .inl ⟨rfl, h.sized, hnull, ⟨[], ?_, ?_⟩,
      .refl c validate dev rcache⟩⟩
    · rw [List.append_nil, lfsAlignup_of_dvd (progSize_pos hc.toLfsInit) (hsum (Nat.le_refl _)) hprog]
    · rw [List.append_nil, hdev, List.take_length]
  · have hprogf : c.progSize.toNat ∣ f := Nat.dvd_trans (progSize_dvd_cacheSize hc.toLfsInit) hdvd
    have hflush := flushSize_le hc h.sized
    have hle : data.length - f ≤ flushSize c pcache := by
      rw [flushSize, hsize]
      exact le_lfsAlignup (progSize_pos hc.toLfsInit) (hsum (Nat.sub_le ..))
    have hbound : o + f + flushSize c pcache ≤ c.blockSize.toNat := by
      have hroom : c.progSize.toNat ∣ c.blockSize.toNat - (o + f) :=
        Nat.dvd_sub (progSize_dvd_blockSize hc.toLfsInit) (Nat.dvd_add ho hprogf)
      have hup := lfsAlignup_le (progSize_pos hc.toLfsInit) (hsum (Nat.sub_le data.length f)) (by omega) hroom
      rw [flushSize, hsize]
      omega
    have hbytes : pcache.buffer.take (flushSize c pcache) = data.drop f ++
        (pcache.buffer.drop pcache.size).take (flushSize c pcache - pcache.size) := by
      have hsplit : flushSize c pcache = pcache.size + (flushSize c pcache - pcache.size) := by omega
      rw [← hbuf, ← List.take_add, ← hsplit]
    have hprogs : (dev₀.prog block.toNat o (data.take f)).prog block.toNat (o + f)
        (pcache.buffer.take (flushSize c pcache)) = dev₀.prog block.toNat o (data ++
          (pcache.buffer.drop pcache.size).take (flushSize c pcache - pcache.size)) := by
      have htwo := dev₀.prog_prog block.toNat o (data.take f)
        (pcache.buffer.take (flushSize c pcache))
      rw [List.length_take, Nat.min_eq_left hf] at htwo
      rw [htwo, hbytes, ← List.append_assoc, List.take_append_drop]
    obtain ⟨err, pcache', rcache', w', dev', heq, hw', hframe, hres⟩ :=
      bdFlush_spec' hs hc hcount (hblock.symm ▸ hb) h.sized hr (by rw [hoff]; exact hbound)
        validate hw
    refine ⟨err, pcache', rcache', w', dev', heq, hw', fun b hne => ?_, hres.imp ?_ And.left⟩
    · rw [hframe b (by rw [hblock]; exact hne), h.frame b hne]
    · rintro ⟨herr, hdev', hzero, hload⟩
      refine ⟨herr, ?_, by rw [hzero]; rfl,
        ⟨(pcache.buffer.drop pcache.size).take (flushSize c pcache - pcache.size), ?_, ?_⟩,
        hload⟩
      · rw [hzero]
        exact h.sized.zero
      · have hlen : (pcache.buffer.take (flushSize c pcache)).length = flushSize c pcache := by
          rw [List.length_take, h.sized.length, Nat.min_eq_left hflush]
        have hlength := congrArg List.length hbytes
        rw [hlen, List.length_append, List.length_drop] at hlength
        have halign := lfsAlignup_add (progSize_pos hc.toLfsInit)
          (hsum (show f + (data.length - f) ≤ data.length by omega)) hprogf
        rw [Nat.add_sub_cancel' hf] at halign
        rw [halign, List.length_append]
        rw [flushSize, hsize] at hlength
        rw [flushSize, hsize]
        omega
      · rw [hdev', hblock, hoff, hdev, hprogs]

/-! ## Several pieces -/

/-- One call after the other, each with the next piece, until one returns an error. -/
def bdProgAll (cb : Callbacks σ) (c : LfsConfig) (validate : Bool) (block : UInt32) :
    Nat → List (List UInt8) → Cache → Cache → σ → Option (Int × Cache × Cache × σ)
  | _, [], pcache, rcache, w => some (0, pcache, rcache, w)
  | off, piece :: pieces, pcache, rcache, w =>
    match bdProg cb c pcache rcache validate block off piece w with
    | none => none
    | some (err, pcache, rcache, w) =>
      if err ≠ 0 then some (err, pcache, rcache, w)
      else bdProgAll cb c validate block (off + piece.length) pieces pcache rcache w

theorem bdProgAll_spec (hs : Serves cb c shows) (hc : Workable c)
    (hcount : c.blockCount ≤ LFS_BLOCK_INLINE) (hb : block < c.blockCount)
    (ho : c.progSize.toNat ∣ o) (validate : Bool) {pieces : List (List UInt8)} {w : σ}
    (hw : shows w dev) (h : Pending c dev₀ block o data pcache dev) (hr : rcache.Sized c)
    (hfit : o + data.length + pieces.flatten.length ≤ c.blockSize.toNat) :
    ∃ err pcache' rcache' w' dev',
      bdProgAll cb c validate block (o + data.length) pieces pcache rcache w =
        some (err, pcache', rcache', w') ∧ shows w' dev' ∧ (∀ b ≠ block.toNat, dev' b = dev₀ b) ∧
      (err = 0 ∧ Pending c dev₀ block o (data ++ pieces.flatten) pcache' dev' ∧
          Reloaded c validate dev dev' rcache rcache' ∨ err < 0) := by
  induction pieces generalizing data pcache rcache dev w with
  | nil =>
    rw [List.flatten_nil, List.append_nil]
    exact ⟨_, _, _, _, dev, rfl, hw, h.frame, .inl ⟨rfl, h, .refl c validate dev rcache⟩⟩
  | cons piece pieces ih =>
    rw [List.flatten_cons, List.length_append] at hfit
    obtain ⟨err, pcache₁, rcache₁, w₁, dev₁, heq, hw₁, hframe, hres⟩ :=
      bdProg_spec hs hc hcount hb ho validate hw h hr
        (show o + data.length + piece.length ≤ c.blockSize.toNat by omega)
    rw [bdProgAll, heq]
    rcases hres with ⟨rfl, hpend, hload⟩ | ⟨herr, -⟩
    · have hsum : o + data.length + piece.length = o + (data ++ piece).length := by
        rw [List.length_append]
        omega
      simp only [ne_eq, not_true_eq_false, if_false]
      rw [hsum, List.flatten_cons, ← List.append_assoc]
      obtain ⟨err, pcache', rcache', w', dev', heq', hw', hframe', hres'⟩ :=
        ih hw₁ hpend (hload.sized hr) (by rw [List.length_append]; omega)
      refine ⟨err, pcache', rcache', w', dev', heq', hw', hframe', hres'.imp_left ?_⟩
      rintro ⟨herr, hpend', hload'⟩
      exact ⟨herr, hpend', hload.trans hload'⟩
    · simp only [if_pos (show err ≠ 0 by omega)]
      exact ⟨_, _, _, _, dev₁, rfl, hw₁, hframe, .inr herr⟩

/-- Data that is programmed in any pieces into an empty cache is on the device after a sync, with the
last unit filled up and everything else as it was; the read cache may be used again. -/
theorem bdProgAll_sync (hs : Serves cb c shows) (hc : Workable c)
    (hcount : c.blockCount ≤ LFS_BLOCK_INLINE) (hb : block < c.blockCount)
    (ho : c.progSize.toNat ∣ o) (validate : Bool) {pieces : List (List UInt8)} {w w₁ w₂ : σ}
    (hw : shows w dev) (hp : pcache.Sized c) (hnull : pcache.block = LFS_BLOCK_NULL)
    (hr : rcache.Sized c) (hfit : o + pieces.flatten.length ≤ c.blockSize.toNat)
    {pcache₁ rcache₁ pcache₂ rcache₂ : Cache}
    (hprog : bdProgAll cb c validate block o pieces pcache rcache w = some (0, pcache₁, rcache₁, w₁))
    (hsync : bdSync cb c pcache₁ rcache₁ validate w₁ = some (0, pcache₂, rcache₂, w₂)) :
    ∃ pad, (pieces.flatten ++ pad).length = lfsAlignup pieces.flatten.length c.progSize.toNat ∧
      shows w₂ (dev.prog block.toNat o (pieces.flatten ++ pad)) ∧
      rcache₂.Coherent c (dev.prog block.toNat o (pieces.flatten ++ pad)) ∧
      pcache₂.Sized c ∧ pcache₂.block = LFS_BLOCK_NULL := by
  obtain ⟨err, pcache', rcache', w', dev', heq, hw', -, hres⟩ :=
    bdProgAll_spec hs hc hcount hb ho validate hw (Pending.start hp hnull) hr
      (by simpa using hfit)
  rw [List.length_nil, Nat.add_zero, hprog] at heq
  cases heq
  obtain ⟨-, hpend, hload⟩ | herr := hres
  · rw [List.nil_append] at hpend
    have hr₁ := hload.sized hr
    obtain ⟨err, pcache', rcache', w', dev'', heq, hw'', -, hres⟩ :=
      bdFlush_spec hs hc hcount hb ho validate hw' hpend hr₁.drop hfit
    rw [bdSync, heq] at hsync
    rcases hres with ⟨rfl, hsized, hnull', ⟨pad, hlen, rfl⟩, hload'⟩ | herr
    · simp only [ne_eq, not_true_eq_false, if_false] at hsync
      simp only [Option.some.injEq, Prod.mk.injEq] at hsync
      obtain ⟨-, rfl, rfl, rfl⟩ := hsync
      refine ⟨pad, hlen, (hs.sync hw'' rfl).1, ?_, hsized, hnull'⟩
      rcases hload' with ⟨rfl, -⟩ | ⟨-, hcoh⟩
      · exact hr₁.drop_coherent
      · exact hcoh
    · simp only [if_pos (show err ≠ 0 by omega)] at hsync
      cases hsync
      omega
  · omega

/-- Twelve bytes in two pieces, which fill up one and a half units. -/
theorem bdProgAll_sync_eightBlocks :
    ∃ pad w₂, ([1, 2, 3, 4, 5] ++ [6, 7, 8, 9, 10, 11, 12] ++ pad : List UInt8).length = 16 ∧
      w₂ = Device.prog (fun _ _ => 0) 2 16 ([1, 2, 3, 4, 5] ++ [6, 7, 8, 9, 10, 11, 12] ++ pad) := by
  have hrun : ((bdProgAll memoryCallbacks eightBlocks true 2 16 [[1, 2, 3, 4, 5], [6, 7, 8, 9, 10, 11, 12]]
      ⟨LFS_BLOCK_NULL, 0, 0, List.replicate 8 0⟩ ⟨LFS_BLOCK_NULL, 0, 0, List.replicate 8 0⟩
      (fun _ _ => 0)).bind fun r => (bdSync memoryCallbacks eightBlocks r.2.1 r.2.2.1 true r.2.2.2).map
        fun q => (r.1, q.1)) = some (0, 0) := by
    decide +kernel
  obtain ⟨⟨_, pcache₁, rcache₁, w₁⟩, hprog, hsync⟩ := Option.bind_eq_some_iff.mp hrun
  obtain ⟨⟨_, pcache₂, rcache₂, w₂⟩, hsync, heq⟩ := Option.map_eq_some_iff.mp hsync
  cases heq
  have hround : lfsAlignup ([1, 2, 3, 4, 5] ++ [6, 7, 8, 9, 10, 11, 12] : List UInt8).length 8 = 16 := by
    decide +kernel
  have hempty : Cache.Sized eightBlocks ⟨LFS_BLOCK_NULL, 0, 0, List.replicate 8 0⟩ :=
    ⟨rfl, Nat.zero_le _, fun h => absurd rfl h⟩
  obtain ⟨pad, hlen, hshows, -⟩ := bdProgAll_sync (memoryCallbacks_serve _) eightBlocks_workable (by decide)
    (by decide) (by decide) true rfl hempty rfl hempty (by decide) hprog hsync
  exact ⟨pad, w₂, hlen.trans hround, hshows⟩

end Prog

end LfsTool
