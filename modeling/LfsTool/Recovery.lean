import LfsTool.Fetch

/-!
# LfsTool.Recovery

What is left of a directory when the power fails while a commit is being written.

* `FollowAll.of_agree`: records are as they were as long as no byte of them has changed.
* `lfsDirFetchmatch_torn`: a fetch finds the commits before the one that was torn.
* `summarize_count`: the number of entries that a fetch counts is that of the log.
* `lfsDirFetchmatch_get`: what `lfs_dir_get` finds in a directory that was fetched.
-/

namespace LfsTool

open BlockArray Splices

section Agree

variable {c : LfsConfig} {dev dev' : Device UInt8} {block crc ptag : UInt32} {off : Nat} {bytes : List UInt8}
  {r : Record} {rs : List Record}

theorem Holds.of_agree {b : Nat} (h : Holds dev b off bytes)
    (hagree : ∀ o < off + bytes.length, dev' b o = dev b o) : Holds dev' b off bytes := by
  unfold Holds at h ⊢
  rw [← h, Device.read_length]
  exact Device.read_congr fun i hi => hagree _ (by omega)

/-- Checksums are inside of their records. -/
def Roomy (rs : List Record) : Prop := ∀ r ∈ rs, lfsTagType1 r.tag = LFS_TYPE_CRC → 4 ≤ r.data.length

theorem Follows.of_agree (h : Follows dev block c off crc ptag r)
    (hroom : lfsTagType1 r.tag = LFS_TYPE_CRC → 4 ≤ r.data.length)
    (hagree : ∀ o < off + (lfsTagDsize r.tag).toNat, dev' block.toNat o = dev block.toNat o) :
    Follows dev' block c off crc ptag r := by
  have hlen := r.length
  refine ⟨h.holds.of_agree ?_, h.fit, fun hcrc => ?_, h.tail⟩
  · intro o ho
    rw [List.length_append, be32_length] at ho
    exact hagree o (by omega)
  · obtain ⟨hfit, hsum⟩ := h.sum hcrc
    have hdata := hroom hcrc
    refine ⟨hfit, ?_⟩
    rw [← hsum]
    exact Device.read_congr fun i hi => hagree _ (by omega)

theorem FollowAll.of_agree (h : FollowAll dev block c off crc ptag rs) (hroom : Roomy rs)
    (hagree : ∀ o < off + (encode ptag rs).length, dev' block.toNat o = dev block.toNat o) :
    FollowAll dev' block c off crc ptag rs := by
  induction h with
  | nil off crc ptag => exact .nil off crc ptag
  | @cons off crc ptag r rs hr _ ih =>
    rw [encode_length_cons, ← Nat.add_assoc] at hagree
    have hfirst : ∀ o < off + (lfsTagDsize r.tag).toNat, dev' block.toNat o = dev block.toNat o :=
      fun o ho => hagree o (Nat.lt_add_right _ ho)
    have hrest : Roomy rs := fun r hr => hroom r (List.mem_cons_of_mem _ hr)
    exact .cons (hr.of_agree (hroom r List.mem_cons_self) hfirst) (ih hrest hagree)

theorem revOf_agree (hagree : ∀ o < 4, dev' block.toNat o = dev block.toNat o) :
    revOf dev' block = revOf dev block := by
  unfold revOf
  rw [Device.read_congr fun i hi => hagree (0 + i) (by omega)]

theorem Commits.of_agree (h : Commits c dev block rs) (hroom : Roomy rs)
    (hagree : ∀ o < 4 + (encode 0xffffffff rs).length, dev' block.toNat o = dev block.toNat o) :
    Commits c dev' block rs := by
  obtain ⟨hfollow, hcommitted⟩ := h
  have hrev : revOf dev' block = revOf dev block := revOf_agree fun o ho => hagree o (by omega)
  refine ⟨?_, hcommitted⟩
  rw [revCrc, hrev]
  exact hfollow.of_agree hroom hagree

end Agree

section Count

variable {dev : Device UInt8} {block : UInt32} {off : Nat} {rs : List Record} {r : Record}

/-- The first value of an entry is its name. -/
def NamesFirst (rs : List Record) : Prop :=
  ∀ pre r post n, rs = pre ++ r :: post → Counts pre n → n ≤ r.id → r.type < 2 ^ 10 →
    lfsTagType1 r.tag = LFS_TYPE_NAME

theorem NamesFirst.of_append {rs' : List Record} (h : NamesFirst (rs ++ rs')) : NamesFirst rs := by
  intro pre r post n hsplit hcount hle htype
  exact h pre r (post ++ rs') n (by rw [hsplit, List.append_assoc, List.cons_append]) hcount hle htype

theorem step_count {m : Summary} {n n' : Nat × Bool} (hproper : ProperTag r.tag)
    (hnames : n.1 ≤ r.id → r.type < 2 ^ 10 → lfsTagType1 r.tag = LFS_TYPE_NAME) (hn : n.1 ≤ 0x3ff)
    (hm : m.count.toNat = n.1) (hgrow : (logOf [r]).foldlM (grow 0x3ff) n = some n') :
    (m.step dev block off r.tag).count.toNat = n'.1 := by
  have hname : lfsTagType1 r.tag = LFS_TYPE_NAME ↔ r.type / 2 ^ 8 = 0 := type1_eq_iff r rfl
  have hsplice : lfsTagType1 r.tag = LFS_TYPE_SPLICE ↔ r.type / 2 ^ 8 = 4 := type1_eq_iff r rfl
  have hid : m.count.toUInt32 ≤ lfsTagId r.tag ↔ n.1 ≤ r.id := by
    rw [UInt32.le_iff_toNat_le, UInt16.toNat_toUInt32, hm]
    rfl
  have hlt := r.fields.id_lt
  simp only [Summary.step, hname, hsplice, hid]
  cases hentry : r.entry with
  | none =>
    obtain ⟨htype, hnot⟩ : 2 ^ 10 ≤ r.type ∧ ¬r.type / 2 ^ 8 = 4 := tagEntry_none hentry
    rw [logOf, List.filterMap_cons_none hentry] at hgrow
    cases hgrow
    rw [if_neg (by omega), if_neg hnot, hm]
  | some e =>
    rw [grow_logOf hentry] at hgrow
    cases e with
    | create i =>
      obtain ⟨htype, -⟩ : r.type = 0x401 ∧ r.id = i := tagEntry_create hentry
      obtain ⟨hi, rfl⟩ := grow_create.mp hgrow
      rw [if_neg (by omega), if_pos (by omega), splice_create htype, UInt16.toNat_add, hm]
      show (n.1 + 1) % 2 ^ 16 = n.1 + 1
      omega
    | delete i =>
      obtain ⟨htype, -⟩ : r.type = 0x4ff ∧ r.id = i := tagEntry_delete hproper hentry
      obtain ⟨hi, rfl⟩ := grow_delete.mp hgrow
      rw [if_neg (by omega), if_pos (by omega), splice_delete htype, UInt16.toNat_add, hm]
      show (n.1 + 65535) % 2 ^ 16 = n.1 - 1
      omega
    | put i k v =>
      obtain ⟨htype, rfl, -, -⟩ : r.type < 2 ^ 10 ∧ r.id = i ∧ r.type = k ∧ r.value = v := tagEntry_put hentry
      obtain ⟨-, rfl⟩ := grow_put.mp hgrow
      by_cases hle : n.1 ≤ r.id
      · rw [if_pos (hname.mp (hnames hle htype)), if_pos hle, UInt32.toNat_toUInt16, UInt32.toNat_add]
        show (r.id + 1) % 2 ^ 32 % 2 ^ 16 = max n.1 (r.id + 1)
        omega
      · rw [if_neg hle, if_neg (show ¬r.type / 2 ^ 8 = 4 by omega), ite_self, hm]
        show n.1 = max n.1 (r.id + 1)
        omega

theorem summarize_count (hproper : ∀ r ∈ rs, ProperTag r.tag) (hnames : NamesFirst rs) {n : Nat × Bool}
    (hcount : (logOf rs).foldlM (grow 0x3ff) (0, false) = some n) :
    (summarize dev block off .start rs).count.toNat = n.1 := by
  induction rs using List.reverseRecOn generalizing n with
  | nil =>
    cases hcount
    rfl
  | append_singleton rs r ih =>
    rw [logOf, List.filterMap_append, List.foldlM_append] at hcount
    obtain ⟨n₀, hcount₀, hgrow⟩ := Option.bind_eq_some_iff.mp hcount
    have hrs := ih (fun r hr => hproper r (List.mem_append_left _ hr)) hnames.of_append hcount₀
    have hr : ProperTag r.tag := hproper r (List.mem_append_right _ (List.mem_singleton.mpr rfl))
    rw [summarize_append off 0 .start rs [r]]
    exact step_count hr (hnames rs r [] n₀.1 rfl ⟨n₀.2, hcount₀⟩) (within_of_count hcount₀).1 hrs hgrow

theorem twoFiles_namesFirst : NamesFirst twoFiles := by
  rintro pre r post n hsplit ⟨spliced, hcount⟩ hle htype
  have hpre : pre = twoFiles.take pre.length := by rw [hsplit, List.take_left]
  have hr : twoFiles[pre.length]? = some r := by
    rw [hsplit, List.getElem?_append_right (Nat.le_refl _), Nat.sub_self]
    rfl
  have hlen : pre.length < 7 := by
    have hlength := congrArg List.length hsplit
    rw [List.length_append, List.length_cons] at hlength
    rw [show twoFiles.length = 7 from rfl] at hlength
    omega
  rw [hpre] at hcount
  generalize pre.length = k at hr hcount hlen
  interval_cases k <;> cases hr <;> cases hcount <;> revert hle htype <;> decide

end Count

section Pair

variable {c : LfsConfig} {dev dev' : Device UInt8} {fmask ftag : UInt32} {τ : Type}
  {cb : UInt32 → UInt32 → Nat → τ → Option (Int × τ)} {pair : Pair} {rs : List Record}

/-- The callback fails on no record of either block. -/
def QuietPair (c : LfsConfig) (dev : Device UInt8) (pair : Pair) (fmask ftag : UInt32)
    (cb : UInt32 → UInt32 → Nat → τ → Option (Int × τ)) : Prop :=
  ∀ block, block = pair.1 ∨ block = pair.2 → Quiet c dev (revCrc dev block) block fmask ftag cb

theorem newestFirst_mem (dev : Device UInt8) (pair : Pair) :
    ((newestFirst dev pair).1 = pair.1 ∨ (newestFirst dev pair).1 = pair.2) ∧
      ((newestFirst dev pair).2 = pair.1 ∨ (newestFirst dev pair).2 = pair.2) := by
  unfold newestFirst
  split
  · exact ⟨.inr rfl, .inl rfl⟩
  · exact ⟨.inl rfl, .inr rfl⟩

theorem newestFirst_lt (dev : Device UInt8) (hb : pair.1 < c.blockCount ∧ pair.2 < c.blockCount) :
    (newestFirst dev pair).1 < c.blockCount ∧ (newestFirst dev pair).2 < c.blockCount := by
  unfold newestFirst
  split
  · exact hb.symm
  · exact hb

theorem fetchmatch_newest (hc : Workable c) (hb : pair.1 < c.blockCount ∧ pair.2 < c.blockCount)
    (hquiet : QuietPair c dev pair fmask ftag cb) (hcommits : Commits c dev (newestFirst dev pair).1 rs) (gstate : Gstate) (dir : Mdir) (seed : UInt32) (t : τ) :
    ∃ f rs' t', lfsDirFetchmatch (deviceRead c dev) c fmask ftag cb gstate dir pair seed t =
        some (.ok (f, fetchAnswer gstate f), t') ∧
      f.dir.pair = newestFirst dev pair ∧ Longest c dev f.dir rs' ∧
      Best c dev (revCrc dev f.dir.pair.1) f.dir.pair.1 fmask ftag cb rs' f.besttag ∧ rs <+: rs' := by
  obtain ⟨hmem, hmem'⟩ := newestFirst_mem dev pair
  have hb' := newestFirst_lt dev hb
  obtain ⟨res, t', hrun, ⟨f, rs', rfl, ⟨hlongest, hbest⟩, hpair⟩ | ⟨-, hnone⟩⟩ :=
    fetchBlocks_spec hc hb' (hquiet _ hmem) (hquiet _ hmem') gstate t
      (f := ⟨{ dir with pair := newestFirst dev pair, rev := revOf dev (newestFirst dev pair).1, off := 0 },
        0xffffffff, seed⟩) rfl rfl rfl
  · have hpair' : f.dir.pair = newestFirst dev pair := hpair.resolve_right fun h => h.2 rs hcommits
    refine ⟨f, rs', t', ?_, hpair', hlongest, hbest, hlongest.longest rs ?_⟩
    · rw [lfsDirFetchmatch_eq dev hc hb]
      exact hrun
    · rwa [hpair']
  · exact absurd hcommits (hnone rs).1

/-- While a commit is written the bytes behind the commits change. Whatever they are when the power fails, a
fetch finds these commits. -/
theorem lfsDirFetchmatch_torn (hc : Workable c) (hb : pair.1 < c.blockCount ∧ pair.2 < c.blockCount)
    (hcommits : Commits c dev (newestFirst dev pair).1 rs) (hroom : Roomy rs)
    (hbefore : ∀ o < 4 + (encode 0xffffffff rs).length,
      dev' (newestFirst dev pair).1.toNat o = dev (newestFirst dev pair).1.toNat o)
    (hothers : ∀ b ≠ (newestFirst dev pair).1.toNat, dev' b = dev b)
    (hquiet : QuietPair c dev' pair fmask ftag cb) (gstate : Gstate) (dir : Mdir) (seed : UInt32) (t : τ) :
    ∃ f rs' t', lfsDirFetchmatch (deviceRead c dev') c fmask ftag cb gstate dir pair seed t =
        some (.ok (f, fetchAnswer gstate f), t') ∧
      f.dir.pair = newestFirst dev pair ∧ Longest c dev' f.dir rs' ∧ rs <+: rs' := by
  have hrev : ∀ block, revOf dev' block = revOf dev block := by
    intro block
    refine revOf_agree fun o ho => ?_
    by_cases hblock : block.toNat = (newestFirst dev pair).1.toNat
    · rw [hblock]
      exact hbefore o (by omega)
    · rw [hothers _ hblock]
  have hnewest : newestFirst dev' pair = newestFirst dev pair := by
    unfold newestFirst
    rw [hrev, hrev]
  have hcommits' := hcommits.of_agree hroom hbefore
  rw [← hnewest] at hcommits' ⊢
  obtain ⟨f, rs', t', hrun, hpair, hlongest, -, hpre⟩ := fetchmatch_newest hc hb hquiet hcommits' gstate dir seed t
  exact ⟨f, rs', t', hrun, hpair, hlongest, hpre⟩

/-- The power fails after the tag of a third file has been written behind the two files. -/
def tornDevice : Device UInt8 := fun b o =>
  if b = 0 ∧ 42 ≤ o then (be32 (mkTag LFS_TYPE_CREATE 2 0 ^^^ mkTag LFS_TYPE_CRC 0x3ff 4)).getD (o - 42) 0xff
  else twoFilesDevice b o

theorem lfsDirFetchmatch_torn_twoFiles :
    ∃ f rs' t', lfsDirFetchmatch (deviceRead eightBlocks tornDevice) eightBlocks 0 0
        (fun _ _ _ t => some (1, t)) ⟨0, (0, 0)⟩ twoFilesDir (0, 1) 0 () =
          some (.ok (f, fetchAnswer ⟨0, (0, 0)⟩ f), t') ∧
      f.dir.pair = (0, 1) ∧ Longest eightBlocks tornDevice f.dir rs' ∧ twoFiles <+: rs' := by
  have hquiet : QuietPair eightBlocks tornDevice (0, 1) 0 0 fun _ _ _ (t : Unit) => some (1, t) :=
    fun _ _ _ _ _ _ t => ⟨1, t, rfl, by decide⟩
  have hnewest : newestFirst twoFilesDevice (0, 1) = (0, 1) := by decide
  have hcommits : Commits eightBlocks twoFilesDevice (newestFirst twoFilesDevice (0, 1)).1 twoFiles := by
    rw [hnewest]
    exact twoFiles_commits 0
  have hbefore : ∀ o < 4 + (encode 0xffffffff twoFiles).length,
      tornDevice (newestFirst twoFilesDevice (0, 1)).1.toNat o =
        twoFilesDevice (newestFirst twoFilesDevice (0, 1)).1.toNat o := by
    intro o ho
    have hlen : 4 + (encode 0xffffffff twoFiles).length = 42 := by decide
    exact if_neg fun h => by omega
  have hothers : ∀ b ≠ (newestFirst twoFilesDevice (0, 1)).1.toNat, tornDevice b = twoFilesDevice b := by
    rw [hnewest]
    intro b hb
    exact funext fun o => if_neg fun h => hb h.1
  have hroom : Roomy twoFiles := by
    unfold Roomy
    decide
  have hfetch :=
    lfsDirFetchmatch_torn eightBlocks_workable (by decide) hcommits hroom hbefore hothers hquiet ⟨0, (0, 0)⟩
      twoFilesDir 0 ()
  rwa [hnewest] at hfetch

theorem Longest.describes {dir : Mdir} (h : Longest c dev dir rs) (hc : Workable c)
    (hb : dir.pair.1 < c.blockCount) (hproper : ∀ r ∈ rs, ProperTag r.tag) : Describes c dev dir rs where
  block_lt := hb
  holds := h.follow.holds
  off_eq := h.off_eq
  fit := by
    rw [h.off_eq]
    exact h.follow.fit (four_le_blockSize hc.toLfsInit)
  etag_eq := h.etag_eq
  proper := hproper

/-- A directory that was fetched has as many entries as all commits of the newest block give, and the lookups
find their values. -/
theorem lfsDirFetchmatch_get (hc : Workable c) (hb : pair.1 < c.blockCount ∧ pair.2 < c.blockCount)
    (hquiet : QuietPair c dev pair fmask ftag cb) (hcommits : Commits c dev (newestFirst dev pair).1 rs)
    (hlast : ∀ rs', Commits c dev (newestFirst dev pair).1 rs' → rs' <+: rs) (hproper : ∀ r ∈ rs, ProperTag r.tag)
    {n : Nat} (hcount : Counts rs n) {gstate : Gstate}
    (hmove : ¬lfsGstateHasmovehere gstate (newestFirst dev pair)) (dir : Mdir) (seed : UInt32) (t : τ) :
    ∃ f t', lfsDirFetchmatch (deviceRead c dev) c fmask ftag cb gstate dir pair seed t =
        some (.ok (f, fetchAnswer gstate f), t') ∧
      (NamesFirst rs → f.dir.count.toNat = n) ∧
      ∀ {m gtag : UInt32} {T S g : Nat}, Selects m T → IsTag gtag T g S → g < n →
        lfsDirGet (deviceRead c dev) gstate f.dir (mkTag m 0x3ff 0) gtag =
          some (answer S g ((replay (logOf rs) blank g).find? fun x =>
            decide (m.toNat &&& x.1 = m.toNat &&& T))) := by
  obtain ⟨f, rs', t', hrun, hpair, hlongest, -, hpre⟩ := fetchmatch_newest hc hb hquiet hcommits gstate dir seed t
  have hcommits' : Commits c dev (newestFirst dev pair).1 rs' := by
    rw [← hpair]
    exact ⟨hlongest.follow, hlongest.committed⟩
  obtain rfl : rs = rs' := hpre.eq_of_length_le (hlast rs' hcommits').length_le
  refine ⟨f, t', hrun, fun hnames => ?_, fun {m gtag T S g} hsel hg hlt => ?_⟩
  · obtain ⟨spliced, hlog⟩ := hcount
    exact (congrArg (fun m => m.count.toNat) hlongest.summary_eq).trans (summarize_count hproper hnames hlog)
  · have hcur : IsTag (gtag - 0) T g S := by rwa [UInt32.sub_zero]
    have hmove' : ¬lfsGstateHasmovehere gstate f.dir.pair := by rwa [hpair]
    rw [lfsDirGet, lfsDirGetslice, if_neg (fun hand => hmove' (And.left hand)), hg.tagSize]
    have hb' : f.dir.pair.1 < c.blockCount := by
      rw [hpair]
      exact (newestFirst_lt dev hb).1
    exact (hlongest.describes hc hb' hproper).search hc hsel hg hcur (hcount.within hlt) S

theorem twoFiles_reached {block : UInt32} {all : List Record}
    (h : FollowAll twoFilesDevice block eightBlocks 4 (revCrc twoFilesDevice block) 0xffffffff all) :
    all <+: twoFiles := by
  refine h.prefix_of_stuck (twoFiles_commits block).1 (not_follows_of_invalid ?_)
  show lfsTagIsvalid (lfsFrombe32 (twoFilesDevice.read 0 _ 4) ^^^ _) = false
  decide

theorem lfsDirFetchmatch_get_twoFiles :
    ∃ f t', lfsDirFetchmatch (deviceRead eightBlocks twoFilesDevice) eightBlocks 0 0
        (fun _ _ _ t => some (1, t)) ⟨0, (0, 0)⟩ twoFilesDir (0, 1) 0 () =
          some (.ok (f, fetchAnswer ⟨0, (0, 0)⟩ f), t') ∧
      f.dir.count.toNat = 2 ∧
      lfsDirGet (deviceRead eightBlocks twoFilesDevice) ⟨0, (0, 0)⟩ f.dir (mkTag 0x700 0x3ff 0)
        (mkTag LFS_TYPE_STRUCT 0 4) = some (.ok (mkTag 0x201 0 2, [1, 2, 0, 0])) := by
  have hquiet : QuietPair eightBlocks twoFilesDevice (0, 1) 0 0 fun _ _ _ (t : Unit) => some (1, t) :=
    fun _ _ _ _ _ _ t => ⟨1, t, rfl, by decide⟩
  have hnewest : newestFirst twoFilesDevice (0, 1) = (0, 1) := by decide
  have hcommits : Commits eightBlocks twoFilesDevice (newestFirst twoFilesDevice (0, 1)).1 twoFiles := by
    rw [hnewest]
    exact twoFiles_commits 0
  have hmove : ¬lfsGstateHasmovehere ⟨0, (0, 0)⟩ (newestFirst twoFilesDevice (0, 1)) := by decide
  have hsel : Selects 0x700 0x200 := selects_of (by decide) (by decide) (by decide)
  have hg : IsTag (mkTag LFS_TYPE_STRUCT 0 4) 0x200 0 4 := isTag_iff.mpr (by decide)
  have hlast : ∀ rs', Commits eightBlocks twoFilesDevice (newestFirst twoFilesDevice (0, 1)).1 rs' →
      rs' <+: twoFiles := fun rs' hrs' => twoFiles_reached hrs'.1
  obtain ⟨f, t', hrun, hentries, hget⟩ :=
    lfsDirFetchmatch_get eightBlocks_workable (by decide) hquiet hcommits hlast twoFiles_describes.proper
      twoFiles_counts hmove twoFilesDir 0 ()
  refine ⟨f, t', hrun, hentries twoFiles_namesFirst, ?_⟩
  rw [hget hsel hg Nat.two_pos]
  rfl

end Pair

end LfsTool
