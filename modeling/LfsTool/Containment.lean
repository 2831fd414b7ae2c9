import LfsTool.Recorded
import LfsTool.ShortReads

/-!
# LfsTool.Containment

Where an extraction writes. The record of a run has every path given to `open` and `mkdir`, and
every directory entry littlefs delivered.

Nothing looks at the names in an image apart from skipping directories called `.` and `..`. So all
paths lie inside the directory option when none of the entries used has a name that climbs out of
the directory it is in, and when the option is not empty (`extraction_contained`).
-/

namespace LfsTool

open PathSyntax TreeFs WalkState

inductive PathEvent where
  /-- a path given to `open` or `mkdir` -/
  | path (p : CString)
  /-- an entry filled in by `lfs_dir_read` -/
  | entry (info : LfsInfo)
  deriving DecidableEq

/-- The walk goes on with the entry: it is taken for a file, or it is not called `.` or `..`. -/
def LfsInfo.Used (info : LfsInfo) : Prop :=
  info.type = LFS_TYPE_REG ∨ cstr info.name ≠ dot ∧ cstr info.name ≠ dotdot

/-- Followed from the directory it is in, the name stays in or below that directory. -/
def LfsInfo.StaysBelow (info : LfsInfo) : Prop := climbs 0 (components (cstr info.name)) = false

/-- All entries used stay below their directory. -/
def EntriesStay (evs : List PathEvent) : Prop :=
  ∀ info, .entry info ∈ evs → info.Used → info.StaysBelow

def PathsInside (dir : CString) (evs : List PathEvent) : Prop :=
  ∀ p, .path p ∈ evs → Inside dir p

instance (info : LfsInfo) : Decidable info.Used :=
  inferInstanceAs (Decidable (_ ∨ _ ∧ _))

instance (info : LfsInfo) : Decidable info.StaysBelow :=
  inferInstanceAs (Decidable (_ = _))

/-- The entries of a record. -/
def entriesOf (evs : List PathEvent) : List LfsInfo :=
  evs.filterMap fun
    | .path _ => none
    | .entry info => some info

theorem mem_entriesOf {evs : List PathEvent} {info : LfsInfo} :
    info ∈ entriesOf evs ↔ .entry info ∈ evs := by
  refine List.mem_filterMap.trans ⟨?_, fun h => ⟨_, h, rfl⟩⟩
  rintro ⟨_ | info', hev, hinfo⟩
  · cases hinfo
  · rwa [← Option.some.inj hinfo]

instance (evs : List PathEvent) : Decidable (EntriesStay evs) :=
  decidable_of_iff (∀ info ∈ entriesOf evs, info.Used → info.StaysBelow)
    (by simp only [mem_entriesOf, EntriesStay])

/-- A path of the walk that stays below the root. -/
structure Stays (path : CString) : Prop where
  ne_nil : path ≠ []
  components : climbs 0 (components path) = false

theorem stays_slash : Stays [slash] := ⟨by decide, rfl⟩

theorem Stays.join {path name : CString} (h : Stays path)
    (hn : climbs 0 (PathSyntax.components name) = false) : Stays (joinPath path name) where
  ne_nil := by
    obtain ⟨c, p, rfl⟩ := List.exists_cons_of_ne_nil h.ne_nil
    unfold joinPath
    split <;> simp
  components := by
    rw [components_joinPath]
    exact not_climbs_append h.components hn

theorem Stays.inside {path : CString} (h : Stays path) {dir : CString} (hdir : dir ≠ []) :
    Inside dir (joinPath dir path) :=
  inside_of_not_climbs (isAbsolute_joinPath hdir path) (components_joinPath dir path) h.components

section Run

variable {σ : Type}

/-- Between two states only paths inside `dir` were used, provided that `guard` holds and that all
entries read in between stay below their directory. -/
def ContainedRun (dir : CString) (guard : Prop) (s s' : WalkState (Logged PathEvent σ)) : Prop :=
  ∃ evs, s'.sys.log = s.sys.log ++ evs ∧ (guard → EntriesStay evs → PathsInside dir evs)

variable {dir : CString} {guard guard' : Prop} {s s₁ s₂ : WalkState (Logged PathEvent σ)}

theorem ContainedRun.silent (h : s₁.sys.log = s.sys.log) : ContainedRun dir guard s s₁ :=
  ⟨[], by rw [h, List.append_nil], by simp [PathsInside]⟩

theorem ContainedRun.path {p : CString} (h : s₁.sys.log = s.sys.log ++ [.path p])
    (hp : guard → Inside dir p) : ContainedRun dir guard s s₁ := by
  refine ⟨_, h, fun hg _ q hq => ?_⟩
  simp only [List.mem_singleton, PathEvent.path.injEq] at hq
  rw [hq]
  exact hp hg

theorem ContainedRun.trans (h : ContainedRun dir guard s s₁) (h₁ : ContainedRun dir guard s₁ s₂) :
    ContainedRun dir guard s s₂ := by
  obtain ⟨evs, hlog, hin⟩ := h
  obtain ⟨evs₁, hlog₁, hin₁⟩ := h₁
  refine ⟨evs ++ evs₁, by rw [hlog₁, hlog, List.append_assoc], fun hg hstay p hp => ?_⟩
  rcases List.mem_append.mp hp with hp | hp
  · exact hin hg (fun info hi => hstay info (List.mem_append_left _ hi)) p hp
  · exact hin₁ hg (fun info hi => hstay info (List.mem_append_right _ hi)) p hp

theorem ContainedRun.mono (h : ContainedRun dir guard' s s₁) (hg : guard → guard') :
    ContainedRun dir guard s s₁ := by
  obtain ⟨evs, hlog, hin⟩ := h
  exact ⟨evs, hlog, fun h => hin (hg h)⟩

/-- After an entry was read the guard may rely on it. -/
theorem ContainedRun.entry {info : LfsInfo} (h : s₁.sys.log = s.sys.log ++ [.entry info])
    (hg : guard → (info.Used → info.StaysBelow) → guard') (h₁ : ContainedRun dir guard' s₁ s₂) :
    ContainedRun dir guard s s₂ := by
  obtain ⟨evs, hlog, hin⟩ := h₁
  refine ⟨.entry info :: evs, by rw [hlog, h, List.append_assoc, List.singleton_append],
    fun hguard hstay p hp => ?_⟩
  have hinfo := hstay info (List.mem_cons_self ..)
  rcases List.mem_cons.mp hp with hp | hp
  · cases hp
  · exact hin (hg hguard hinfo) (fun i hi => hstay i (List.mem_cons_of_mem _ hi)) p hp

/-! What the calls of an extraction record. -/

variable {libc : Libc σ} {lf : Lfs σ} {lfs : Option Ptr} {px : Posix σ}

theorem targetOpen_contained {path : CString} {flags : Nat} {r : Option NativeFile}
    (h : s.openFile (vfsNative libc.lift (px.recorded .path) dir) path flags = (r, s₁))
    (hin : guard → Inside dir (joinPath dir path)) : ContainedRun dir guard s s₁ := by
  have ho := openFile_sys h
  simp only [vfsNative] at ho
  obtain ⟨_, hlog⟩ | ⟨w₁, w₂, fd, hw₁, hc, hlog, _⟩ := nativeOpen_cases (Libc.lift_keeps libc) ho
  · exact .silent hlog
  · have hw₂ := congrArg (·.2.log) hc
    refine .path ?_ hin
    rw [hlog, ← hw₂, ← hw₁]
    rfl

theorem targetMkdir_contained {path : CString} {err : Int}
    (h : s.makeDir (vfsNative libc.lift (px.recorded .path) dir) path = (err, s₁))
    (hin : guard → Inside dir (joinPath dir path)) : ContainedRun dir guard s s₁ := by
  have ho := makeDir_sys h
  simp only [vfsNative] at ho
  obtain ⟨p, w₁, w₂, err', errno, hp, hw₁, hm, hlog, _⟩ :=
    nativeMkdir_cases (Libc.lift_keeps libc) ho
  have hw₂ := congrArg (·.2.log) hm
  rcases hp with rfl | rfl
  · refine .silent ?_
    rw [hlog, ← hw₂, ← hw₁]
    rfl
  · refine .path ?_ hin
    rw [hlog, ← hw₂, ← hw₁]
    rfl

theorem targetWrite_log {fd : NativeFile} {rb wb : Int}
    (h : s.writeBuffer (vfsNative libc.lift (px.recorded .path) dir) (some fd) rb = (wb, s₁)) :
    s₁.sys.log = s.sys.log :=
  writeBuffer_keeps (nativeWrite_keeps rfl) h

theorem targetClose_log (fd : NativeFile) (s : WalkState (Logged PathEvent σ)) :
    (s.closeFile (vfsNative libc.lift (px.recorded .path) dir) (some fd)).2.sys.log =
      s.sys.log :=
  nativeClose_keeps (Libc.lift_keeps libc) rfl

theorem sourceOpen_log {path : CString} {flags : Nat} {r : Option Ptr}
    (h : s.openFile (vfsLfs libc.lift (lf.recorded .entry) lfs) path flags = (r, s₁)) :
    s₁.sys.log = s.sys.log :=
  openFile_keeps (lfsOpen_keeps (Libc.lift_keeps libc) fun _ _ => rfl) h

theorem sourceRead_log {fd : Ptr} {rb : Int}
    (h : s.readBuffer (vfsLfs libc.lift (lf.recorded .entry) lfs) (some fd) = (rb, s₁)) :
    s₁.sys.log = s.sys.log :=
  readBuffer_keeps (lfsRead_keeps rfl) h

theorem sourceClose_log (fd : Ptr) (s : WalkState (Logged PathEvent σ)) :
    (s.closeFile (vfsLfs libc.lift (lf.recorded .entry) lfs) (some fd)).2.sys.log =
      s.sys.log :=
  lfsClose_keeps (Libc.lift_keeps libc) rfl

theorem sourceOpendir_log {path : CString} {r : Option Ptr}
    (h : s.openDir (vfsLfs libc.lift (lf.recorded .entry) lfs) path = (r, s₁)) :
    s₁.sys.log = s.sys.log :=
  openDir_keeps (lfsOpendir_keeps (Libc.lift_keeps libc) fun _ _ => rfl) h

theorem sourceClosedir_log (d : Ptr) (s : WalkState (Logged PathEvent σ)) :
    (s.closeDir (vfsLfs libc.lift (lf.recorded .entry) lfs) (some d)).2.sys.log = s.sys.log :=
  lfsClosedir_keeps (Libc.lift_keeps libc) rfl

/-- A read of a directory: an entry whose name and type are in the static slot, or nothing that the
walk goes on with. -/
theorem sourceReaddir_log {d : Ptr} {found : Bool}
    (h : s.readDir (vfsLfs libc.lift (lf.recorded .entry) lfs) (some d) = (found, s₁)) :
    (∃ info, s₁.sys.log = s.sys.log ++ [.entry info] ∧
        (found = false ∨ cstr s₁.dirent.name = cstr info.name ∧
          s₁.dirent.type = if info.type = LFS_TYPE_REG then .file else .dir)) ∨
      s₁.sys.log = s.sys.log ∧ (found = false ∨ s₁.dirent.type = .endMark) := by
  have hrd := readDir_sys h
  simp only [vfsLfs] at hrd
  obtain ⟨err, info, hr, hcases⟩ := lfsReaddir_cases hrd
  simp only [Lfs.recorded] at hr
  split at hr
  · rename_i hpos
    simp only [Logged.call, Prod.mk.injEq] at hr
    obtain ⟨hinfo, hw⟩ := hr
    have hlog := congrArg Logged.log hw
    rw [hinfo] at hpos hlog
    refine .inl ⟨info, hlog.symm, ?_⟩
    obtain ⟨rfl, _⟩ | ⟨rfl, rfl, _⟩ | ⟨rfl, _, hlen, hslot⟩ := hcases
    · exact .inl rfl
    · exact (Int.lt_irrefl 0 hpos).elim
    · rw [hslot, Dirent.setEntry_name _ hlen]
      exact .inr ⟨rfl, rfl⟩
  · rename_i hpos
    simp only [Logged.lift, Prod.mk.injEq] at hr
    obtain ⟨hinfo, hw⟩ := hr
    have hlog := congrArg Logged.log hw
    rw [hinfo] at hpos
    refine .inr ⟨hlog.symm, ?_⟩
    obtain ⟨rfl, _⟩ | ⟨rfl, rfl, hslot⟩ | ⟨rfl, hlt, _⟩ := hcases
    · exact .inl rfl
    · rw [hslot]
      exact .inr rfl
    · exact absurd hlt hpos

/-! Whole runs. -/

/-- The body of the entry loop goes on with the entry in the slot. -/
def Goes (s : WalkState (Logged PathEvent σ)) : Prop :=
  s.dirent.type = .file ∨ cstr s.dirent.name ≠ dot ∧ cstr s.dirent.name ≠ dotdot

/-- What a task needs to know about its path. -/
def Guard (s : WalkState (Logged PathEvent σ)) : Task Ptr → Prop
  | .tree path => Stays path
  | .entries path _ => Stays path
  | .entry path => Goes s → Stays path

theorem CopyRun.keepsLog {inn : Ptr} {out : NativeFile} {r : Int}
    (h : CopyRun (vfsLfs libc.lift (lf.recorded .entry) lfs)
      (vfsNative libc.lift (px.recorded .path) dir) (some inn) (some out) s r s₁) :
    s₁.sys.log = s.sys.log := by
  induction h with
  | readFail hr _ => exact sourceRead_log hr
  | writeFail hr _ hw _ => exact (targetWrite_log hw).trans (sourceRead_log hr)
  | last hr _ hw _ => exact (targetWrite_log hw).trans (sourceRead_log hr)
  | more hr _ hw _ _ ih => exact ih.trans ((targetWrite_log hw).trans (sourceRead_log hr))

theorem FileRun.contained {path : CString} {r : Int} (hdir : dir ≠ [])
    (h : FileRun (vfsLfs libc.lift (lf.recorded .entry) lfs)
      (vfsNative libc.lift (px.recorded .path) dir) path s r s₁) :
    ContainedRun dir (Stays path) s s₁ := by
  cases h with
  | outFail ho => exact targetOpen_contained ho (·.inside hdir)
  | inFail ho hi =>
    refine (targetOpen_contained ho (·.inside hdir)).trans (.silent ?_)
    rw [targetClose_log, sourceOpen_log hi]
  | copied ho hi hc =>
    refine (targetOpen_contained ho (·.inside hdir)).trans (.silent ?_)
    rw [targetClose_log, sourceClose_log, hc.keepsLog, sourceOpen_log hi]

/-- Between an entry and the call for it the guard of its path is established. -/
theorem guard_of_readdir {path : CString} {d : Ptr} {p : HeapString}
    {s₂ s₃ : WalkState (Logged PathEvent σ)}
    (hd : s.readDir (vfsLfs libc.lift (lf.recorded .entry) lfs) (some d) = (true, s₁))
    (hend : s₁.dirent.type ≠ .endMark) (ha : s₁.entryPath libc.lift path = (some p, s₂))
    (h : ContainedRun dir (Stays path ∧ Guard s₂ (.entry p.str)) s₂ s₃) :
    ContainedRun dir (Stays path) s s₃ := by
  obtain ⟨info, hlog, hslot⟩ | ⟨_, hslot⟩ := sourceReaddir_log hd
  · obtain hf | ⟨hname, htype⟩ := hslot
    · cases hf
    obtain ⟨happ, hdirent⟩ := entryPath_sys ha
    have hs₂ : s₂.sys.log = s.sys.log ++ [.entry info] := (entryPath_keeps (Libc.lift_keeps libc) ha).trans hlog
    refine .entry hs₂ (fun hpath hinfo => ⟨hpath, fun hgoes => ?_⟩) h
    rw [appendDirAlloc_some happ, hname]
    refine hpath.join (hinfo ?_)
    rw [Goes, hdirent, hname, htype] at hgoes
    rcases hgoes with hfile | hname
    · left
      by_contra hreg
      rw [if_neg hreg] at hfile
      cases hfile
    · exact .inr hname
  · obtain hf | ht := hslot
    · cases hf
    · exact absurd ht hend

theorem sourceReaddir_contained {d : Ptr} {found : Bool}
    (h : s.readDir (vfsLfs libc.lift (lf.recorded .entry) lfs) (some d) = (found, s₁)) :
    ContainedRun dir guard s s₁ := by
  obtain ⟨info, hlog, _⟩ | ⟨hlog, _⟩ := sourceReaddir_log h
  · exact .entry hlog (fun hg _ => hg) (.silent rfl)
  · exact .silent hlog

theorem freePath_contained (p : Option HeapString) (s : WalkState (Logged PathEvent σ)) :
    ContainedRun dir guard s (s.freePath libc.lift p) := .silent rfl

theorem WalkRun.contained {task : Task Ptr} {r : Int} (hdir : dir ≠ [])
    (h : WalkRun libc.lift (vfsLfs libc.lift (lf.recorded .entry) lfs)
      (vfsNative libc.lift (px.recorded .path) dir) task s r s₁) :
    ContainedRun dir (Guard s task) s s₁ := by
  induction h with
  | mkdirFail hm _ =>
    have hmkdir := targetMkdir_contained hm (Stays.inside · hdir)
    exact hmkdir.trans (freePath_contained _ _)
  | opendirFail hm ho =>
    have hmkdir := targetMkdir_contained hm (Stays.inside · hdir)
    exact (hmkdir.trans (.silent (sourceOpendir_log ho))).trans (freePath_contained _ _)
  | opened hm ho _ ih =>
    have hmkdir := targetMkdir_contained hm (Stays.inside · hdir)
    have hopen := hmkdir.trans (.silent (sourceOpendir_log ho))
    exact hopen.trans (ih.trans (.silent (sourceClosedir_log _ _)))
  | readdirFail hd => exact (sourceReaddir_contained hd).trans (freePath_contained _ _)
  | finished hd _ => exact (sourceReaddir_contained hd).trans (freePath_contained _ _)
  | allocFail hd _ ha =>
    exact (sourceReaddir_contained hd).trans
      ((ContainedRun.silent (entryPath_keeps (Libc.lift_keeps libc) ha)).trans (freePath_contained _ _))
  | entryFail hd hend ha _ _ ih =>
    refine guard_of_readdir hd hend ha (ContainedRun.trans ?_ (freePath_contained _ _))
    exact ih.mono (·.2)
  | next hd hend ha _ _ ihe ih =>
    refine guard_of_readdir hd hend ha (ContainedRun.trans ?_ (ih.mono (·.1)))
    exact (ihe.mono (·.2)).trans (freePath_contained _ _)
  | file hfile hf => exact (hf.contained hdir).mono fun h => h (.inl hfile)
  | subtree _ hdot hdotdot _ ih => exact ih.mono fun h => h (.inr ⟨hdot, hdotdot⟩)
  | skipped _ _ => exact .silent rfl

end Run

section Extraction

variable {σ : Type}

/-- The record of `traversal(vfs_lfs, vfs_native, "/")` into the directory `dir`. -/
def extractionRecord (libc : Libc σ) (lf : Lfs σ) (lfs : Option Ptr) (px : Posix σ) (dir : CString)
    (fuel : Nat) (s : WalkState σ) : Option (List PathEvent) :=
  (traversal libc.lift (vfsLfs libc.lift (lf.recorded .entry) lfs)
    (vfsNative libc.lift (px.recorded .path) dir) fuel [slash] s.unrecorded).map (·.2.sys.log)

theorem extraction_contained (libc : Libc σ) (lf : Lfs σ) (lfs : Option Ptr) (px : Posix σ)
    {dir : CString} (hdir : dir ≠ []) {fuel : Nat} {s s' : WalkState σ} {r : Int}
    (h : traversal libc (vfsLfs libc lf lfs) (vfsNative libc px dir) fuel [slash] s =
      some (r, s')) :
    ∃ evs, extractionRecord libc lf lfs px dir fuel s = some evs ∧
      (EntriesStay evs → PathsInside dir evs) := by
  have hl : LibcHom Logged.sys (libc.lift : Libc (Logged PathEvent σ)) libc := libc.lift_hom
  have hmap := traversal_map hl (vfsLfs_hom hl (lf.recorded_hom .entry) lfs)
    (vfsNative_hom hl (px.recorded_hom .path) dir) fuel [slash] s.unrecorded
  obtain ⟨⟨r', s₁⟩, hrun, _⟩ := Option.map_eq_some_iff.mp (hmap.symm.trans h)
  obtain ⟨evs, hlog, hin⟩ := (traversal_run hrun).contained hdir
  exact ⟨evs, by rw [extractionRecord, hrun]; exact congrArg some hlog, hin stays_slash⟩

end Extraction

/-- An image with a file of the given name, and a directory `/out`. -/
def oneFile (name : Name) : World where
  allocs := 0
  native := .idle [([], .dir), ([outName], .dir)]
  image := .idle [([], .dir), ([name], .file [1])]

theorem extraction_contained_oneFile :
    ∃ s' evs, calmEnv.traversal .extract 8 [slash] (.start (oneFile aName)) = some (0, s') ∧
      extractionRecord (treeLibc calmEnv) (treeLfs calmEnv) calmEnv.lfs (treePosix calmEnv)
        calmEnv.directory 8 (.start (oneFile aName)) = some evs ∧
      entriesOf evs ≠ [] ∧ EntriesStay evs ∧ PathsInside calmEnv.directory evs := by
  obtain ⟨s', h⟩ := exists_state
    (o := calmEnv.traversal .extract 8 [slash] (.start (oneFile aName))) (r := 0)
    (by decide +kernel)
  have hstay : (extractionRecord (treeLibc calmEnv) (treeLfs calmEnv) calmEnv.lfs (treePosix calmEnv)
      calmEnv.directory 8 (.start (oneFile aName))).map
        (fun evs => decide (entriesOf evs ≠ [] ∧ EntriesStay evs)) = some true := by
    decide +kernel
  obtain ⟨evs, hevs, hin⟩ := extraction_contained (treeLibc calmEnv) (treeLfs calmEnv) calmEnv.lfs
    (treePosix calmEnv) (by decide) h
  rw [hevs] at hstay
  obtain ⟨hne, hstay⟩ := of_decide_eq_true (Option.some.inj hstay)
  exact ⟨s', evs, h, hevs, hne, hstay, hin hstay⟩

/-- `../a` -/
abbrev climbName : Name := dotdot ++ aPath

/-- `/out//../a`, which is `/a` -/
abbrev climbedPath : CString := joinPath calmEnv.directory (slash :: climbName)

theorem not_inside_climbedPath : ¬Inside calmEnv.directory climbedPath := by
  rintro ⟨_, below, hnames, _⟩
  have hloc : (location climbedPath).names = [aName] ∧
      (location calmEnv.directory).names = [outName] := by decide
  rw [hloc.1, hloc.2, List.singleton_append, List.cons_eq_cons] at hnames
  exact absurd hnames.1 (by decide)

/-- The image has a file called `../a`: the file is created beside the directory `/out`. -/
theorem outside_oneFile :
    ∃ s' evs, calmEnv.traversal .extract 8 [slash] (.start (oneFile climbName)) = some (-1, s') ∧
      extractionRecord (treeLibc calmEnv) (treeLfs calmEnv) calmEnv.lfs (treePosix calmEnv)
        calmEnv.directory 8 (.start (oneFile climbName)) = some evs ∧
      .path climbedPath ∈ evs ∧ ¬PathsInside calmEnv.directory evs ∧
      (oneFile climbName).native.fs.get [aName] = none ∧
      s'.sys.native.fs.get [aName] = some (.file []) := by
  have hrun : (calmEnv.traversal .extract 8 [slash] (.start (oneFile climbName))).map
      (fun r => (r.1, r.2.sys.native.fs.get [aName])) = some (-1, some (.file [])) := by
    decide +kernel
  have hevs : (extractionRecord (treeLibc calmEnv) (treeLfs calmEnv) calmEnv.lfs (treePosix calmEnv)
      calmEnv.directory 8 (.start (oneFile climbName))).map (decide <| .path climbedPath ∈ ·) =
      some true := by
    decide +kernel
  obtain ⟨⟨r, s'⟩, h, hr⟩ := Option.map_eq_some_iff.mp hrun
  simp only [Prod.mk.injEq] at hr
  obtain ⟨rfl, hfile⟩ := hr
  obtain ⟨evs, hrec, hmem⟩ := Option.map_eq_some_iff.mp hevs
  have hpath := of_decide_eq_true hmem
  exact ⟨s', evs, h, hrec, hpath, fun hin => not_inside_climbedPath (hin _ hpath), by decide, hfile⟩

end LfsTool
