import LfsTool.Recorded
import LfsTool.RoundTrip

/-!
# LfsTool.Termination

Whether an extraction returns.

* `Graph`: what each directory path of an image lists. Entries that lead back are paths that list the
  same again. `Presents`: littlefs shows that graph, and the native file system has a longest path.
* `Extractable`, `Stuck`: what is extracted without an error when no call fails, and what is never left.
* `Presents.hasRuns`: a directory that is not stuck has a run on every such world, by induction on what
  its path lacks to the longest.
* `walkRun_stage`: where no call fails (`Stage`) nothing that is stuck has a run.
* `extraction_terminates_iff`: so an extraction returns on every world if and only if the root is not
  stuck.
-/

namespace LfsTool

open PathSyntax WalkState

/-! ## Directory graphs -/

/-- The name of an entry, of at most `LFS_NAME_MAX` bytes. -/
def LfsInfo.Named (info : LfsInfo) : Prop := (0 : UInt8) ∉ info.name ∧ info.name.length ≤ 255

/-- The entries each directory path of an image lists, finitely many. A path that does not name a
directory lists nothing. -/
structure Graph where
  listing : CString → Option (List LfsInfo)
  names : ∀ path entries, listing path = some entries → ∀ info ∈ entries, info.Named

def LfsInfo.Descends (info : LfsInfo) : Prop :=
  info.type ≠ LFS_TYPE_REG ∧ info.name ≠ dot ∧ info.name ≠ dotdot

section Graph

variable (g : Graph) (contextPath : CString) (pathMax : Nat)

def Fits (dir : CString) : Prop := (joinPath contextPath dir).length ≤ pathMax

/-- The directory is extracted without an error when no call fails. -/
inductive Extractable : CString → Prop where
  | mk {dir : CString} {entries : List LfsInfo} : Fits contextPath pathMax dir →
      g.listing dir = some entries →
      (∀ info ∈ entries, info.Descends → Extractable (joinPath dir info.name)) → Extractable dir

/-- When no call fails, `traversal` of the directory gets to an entry with an empty name, in a directory
the path of which ends in a slash, and calls itself with the same path. -/
inductive Stuck : CString → Prop where
  | here {dir : CString} {before after : List LfsInfo} {info : LfsInfo} : Fits contextPath pathMax dir →
      g.listing dir = some (before ++ info :: after) →
      (∀ i ∈ before, i.Descends → Extractable g contextPath pathMax (joinPath dir i.name)) →
      info.Descends → info.name = [] → dir.getLast? = some slash → Stuck dir
  | deeper {dir : CString} {before after : List LfsInfo} {info : LfsInfo} : Fits contextPath pathMax dir →
      g.listing dir = some (before ++ info :: after) →
      (∀ i ∈ before, i.Descends → Extractable g contextPath pathMax (joinPath dir i.name)) →
      info.Descends → Stuck (joinPath dir info.name) → Stuck dir

end Graph

/-! ### Lengths of paths -/

theorem joinPath_nil_of_slash {dir : CString} (h : dir.getLast? = some slash) : joinPath dir [] = dir := by
  rw [joinPath, if_neg fun hsep => hsep.2 h, List.append_nil]

/-- Every other entry has a longer path than its directory. -/
theorem length_lt_joinPath {dir name : CString} (hdir : dir ≠ [])
    (h : ¬(name = [] ∧ dir.getLast? = some slash)) : dir.length < (joinPath dir name).length := by
  have hpos : dir.length > 0 := List.length_pos_iff.mpr hdir
  unfold joinPath
  by_cases hlast : dir.getLast? = some slash
  · rw [if_neg fun hsep => hsep.2 hlast, List.length_append]
    have hname : name ≠ [] := fun hnil => h ⟨hnil, hlast⟩
    have hlen : name.length > 0 := List.length_pos_iff.mpr hname
    omega
  · rw [if_pos ⟨hpos, hlast⟩, List.length_append, List.length_append, List.length_singleton]
    omega

theorem length_joinPath_lt {dir dir' : CString} (contextPath : CString) (h : dir.length < dir'.length) :
    (joinPath contextPath dir).length < (joinPath contextPath dir').length := by
  unfold joinPath
  split <;> simp only [List.length_append] <;> omega

section Graph

variable {g : Graph} {contextPath : CString} {pathMax : Nat} {dir : CString}

theorem Extractable.fits (h : Extractable g contextPath pathMax dir) : Fits contextPath pathMax dir := by
  cases h with
  | mk hfits _ _ => exact hfits

theorem Stuck.fits (h : Stuck g contextPath pathMax dir) : Fits contextPath pathMax dir := by
  cases h with
  | here hfits _ _ _ _ _ => exact hfits
  | deeper hfits _ _ _ _ => exact hfits

/-- Behind entries without an error comes one whose path is stuck. -/
theorem Stuck.entry (h : Stuck g contextPath pathMax dir) :
    ∃ before info after, g.listing dir = some (before ++ info :: after) ∧
      (∀ i ∈ before, i.Descends → Extractable g contextPath pathMax (joinPath dir i.name)) ∧
      info.Descends ∧ Stuck g contextPath pathMax (joinPath dir info.name) := by
  cases h with
  | @here _ before after info hfits hlisting hbefore hinfo hname hslash =>
    refine ⟨before, info, after, hlisting, hbefore, hinfo, ?_⟩
    rw [hname, joinPath_nil_of_slash hslash]
    exact .here hfits hlisting hbefore hinfo hname hslash
  | @deeper _ before after info _ hlisting hbefore hinfo hstuck =>
    exact ⟨before, info, after, hlisting, hbefore, hinfo, hstuck⟩

end Graph

/-! ## Worlds that present a graph -/

/-- littlefs shows the graph, and the native target has a longest path. `dirs` are the entries left in
the directories that are open, `left` bounds the bytes left in the files. -/
structure Presents {σ : Type} (g : Graph) (pathMax : Nat) (libc : Libc σ) (lf : Lfs σ) (lfs : Option Ptr)
    (px : Posix σ) (dirs : σ → Ptr → Option (List LfsInfo)) (left : σ → Ptr → Nat) : Prop where
  allocator : LibcKeeps libc dirs
  /-- `malloc` does not return an object that is in use. -/
  fresh : ∀ n w p, (libc.malloc n w).1 = some p → dirs w p = none
  system : PosixKeeps px dirs
  write_left : ∀ fd data w, left (px.write fd data w).2 = left w
  fileOpen : ∀ file path flags w, dirs (lf.fileOpen lfs file path flags w).2 = dirs w
  fileClose : ∀ file w, dirs (lf.fileClose lfs file w).2 = dirs w
  fileRead : ∀ file n w, dirs (lf.fileRead lfs file n w).2 = dirs w
  /-- A file has an end. -/
  fileRead_left : ∀ file n w data, (lf.fileRead lfs file n w).1 = some data →
    data.length + left (lf.fileRead lfs file n w).2 file ≤ left w file
  dirOpen : ∀ dir path w, (lf.dirOpen lfs dir path w).1 = 0 → ∃ entries,
    g.listing path = some entries ∧ dirs (lf.dirOpen lfs dir path w).2 dir = some entries
  dirOpen_other : ∀ dir path w p, p ≠ dir → dirs (lf.dirOpen lfs dir path w).2 p = dirs w p
  /-- The entries come in order, unless the call fails. -/
  dirRead : ∀ dir w rest, dirs w dir = some rest → (lf.dirRead lfs dir w).1.1 < 0 ∨
    (lf.dirRead lfs dir w).1.1 = 0 ∧ rest = [] ∨
    (lf.dirRead lfs dir w).1.1 > 0 ∧ ∃ rest', rest = (lf.dirRead lfs dir w).1.2 :: rest' ∧
      dirs (lf.dirRead lfs dir w).2 dir = some rest'
  dirRead_other : ∀ dir w p, p ≠ dir → dirs (lf.dirRead lfs dir w).2 p = dirs w p
  dirClose_other : ∀ dir w p, p ≠ dir → dirs (lf.dirClose lfs dir w).2 p = dirs w p
  /-- `ENAMETOOLONG` -/
  mkdir_long : ∀ path w, path.length > pathMax →
    (px.mkdir (some path) w).1.1 ≠ 0 ∧ (px.mkdir (some path) w).1.2 ≠ EEXIST
  /-- `EFAULT` -/
  mkdir_null : ∀ w, (px.mkdir none w).1.1 ≠ 0 ∧ (px.mkdir none w).1.2 ≠ EEXIST

/-- An extraction of the graph returns, whatever fails. -/
def ExtractionTerminates (g : Graph) (contextPath : CString) (pathMax : Nat) : Prop :=
  ∀ (σ : Type) (libc : Libc σ) (lf : Lfs σ) (lfs : Option Ptr) (px : Posix σ)
    (dirs : σ → Ptr → Option (List LfsInfo)) (left : σ → Ptr → Nat),
    Presents g pathMax libc lf lfs px dirs left → ∀ s, ∃ fuel r s',
      traversal libc (vfsLfs libc lf lfs) (vfsNative libc px contextPath) fuel [slash] s = some (r, s')

structure Dirent.Shows (d : Dirent) (info : LfsInfo) : Prop where
  name : cstr d.name = info.name
  type : d.type = if info.type = LFS_TYPE_REG then .file else .dir

theorem Dirent.Shows.file_iff {d : Dirent} {info : LfsInfo} (h : d.Shows info) :
    d.type = .file ↔ info.type = LFS_TYPE_REG := by
  rw [h.type]
  split <;> simp_all

/-- The loop body calls `traversal` for the entries that descend. -/
theorem Dirent.Shows.descends_iff {d : Dirent} {info : LfsInfo} (h : d.Shows info) :
    info.Descends ↔ d.type ≠ .file ∧ cstr d.name ≠ dot ∧ cstr d.name ≠ dotdot := by
  rw [LfsInfo.Descends, h.name]
  exact and_congr_left' (not_congr h.file_iff.symm)

def Task.handle : Task Ptr → Option Ptr
  | .entries _ p => some p
  | _ => none

/-- The directories a task goes through are extractable. -/
def Task.ExtractableAt {σ : Type} (g : Graph) (contextPath : CString) (pathMax : Nat)
    (dirs : σ → Ptr → Option (List LfsInfo)) (s : WalkState σ) : Task Ptr → Prop
  | .tree dir => Extractable g contextPath pathMax dir
  | .entries dir p => ∀ rest, dirs s.sys p = some rest → (∀ info ∈ rest, info.Named) →
      ∀ info ∈ rest, info.Descends → Extractable g contextPath pathMax (joinPath dir info.name)
  | .entry path => ∀ info, s.dirent.Shows info → info.Descends → Extractable g contextPath pathMax path

def HasRuns {σ φ δ φ' δ' : Type} (libc : Libc σ) (vfs : Vfs σ φ δ) (target : Vfs σ φ' δ')
    (dir : CString) : Prop :=
  ∀ s, ∃ r s', WalkRun libc vfs target (.tree dir) s r s'

namespace Presents

section Presents

variable {σ : Type} {g : Graph} {pathMax : Nat} {libc : Libc σ} {lf : Lfs σ} {lfs : Option Ptr}
  {px : Posix σ} {dirs : σ → Ptr → Option (List LfsInfo)} {left : σ → Ptr → Nat}
  {contextPath : CString} {s s₁ : WalkState σ}

/-! ### What the steps of the walk do -/

theorem makeDir_fits (hp : Presents g pathMax libc lf lfs px dirs left) {dir : CString}
    (h : s.makeDir (vfsNative libc px contextPath) dir = (0, s₁)) : Fits contextPath pathMax dir := by
  have hcall : nativeMkdir libc px contextPath dir s.sys = (0, s₁.sys) := makeDir_sys h
  obtain ⟨path, w₁, w₂, err, errno, hpath, _, hm, _, hiff⟩ := nativeMkdir_cases hp.allocator hcall
  have hok : err = 0 ∨ errno = EEXIST := hiff.mp rfl
  by_contra hlong
  have hfail : err ≠ 0 ∧ errno ≠ EEXIST := by
    rcases hpath with rfl | rfl
    · have hnull := hp.mkdir_null w₁
      rwa [hm] at hnull
    · have hname := hp.mkdir_long _ w₁ (Nat.lt_of_not_le hlong)
      rwa [hm] at hname
  exact hok.elim hfail.1 hfail.2

theorem openDir_step (hp : Presents g pathMax libc lf lfs px dirs left) {dir : CString}
    {r : Option Ptr} (h : s.openDir (vfsLfs libc lf lfs) dir = (r, s₁)) :
    (∀ q l, dirs s.sys q = some l → dirs s₁.sys q = some l) ∧
      ∀ p, r = some p → dirs s.sys p = none ∧ ∃ entries,
        g.listing dir = some entries ∧ dirs s₁.sys p = some entries := by
  have hcall : lfsOpendir libc lf lfs dir s.sys = (r, s₁.sys) := openDir_sys h
  have hkeep := hp.allocator.malloc sizeofLfsDir s.sys
  have hfresh := hp.fresh sizeofLfsDir s.sys
  simp only [lfsOpendir] at hcall
  cases hm : libc.malloc sizeofLfsDir s.sys with
  | mk o w₁ =>
    rw [hm] at hcall hkeep hfresh
    cases o with
    | none =>
      obtain ⟨rfl, hw⟩ := Prod.mk.inj hcall
      have hdirs : dirs s₁.sys = dirs s.sys := by rw [← hw, hp.allocator.free, hkeep]
      exact ⟨fun q l hq => by rw [hdirs, hq], fun q hq => by cases hq⟩
    | some p =>
      have hnone : dirs s.sys p = none := hfresh p rfl
      have hopen := hp.dirOpen p dir w₁
      have hother : ∀ q l, dirs s.sys q = some l →
          dirs (lf.dirOpen lfs p dir w₁).2 q = some l := by
        intro q l hq
        have hne : q ≠ p := by
          rintro rfl
          rw [hnone] at hq
          cases hq
        rw [hp.dirOpen_other p dir w₁ q hne, hkeep, hq]
      simp only at hcall
      split at hcall
      · rename_i herr
        obtain ⟨rfl, hw⟩ := Prod.mk.inj hcall
        rw [← hw]
        refine ⟨hother, fun q hq => ?_⟩
        cases hq
        exact ⟨hnone, hopen herr⟩
      · obtain ⟨rfl, hw⟩ := Prod.mk.inj hcall
        rw [← hw, hp.allocator.free]
        exact ⟨hother, fun q hq => by cases hq⟩

theorem readDir_other (hp : Presents g pathMax libc lf lfs px dirs left) {p q : Ptr} {found : Bool}
    (hne : some p ≠ some q) (h : s.readDir (vfsLfs libc lf lfs) (some p) = (found, s₁)) :
    dirs s₁.sys q = dirs s.sys q := by
  have hq : q ≠ p := fun heq => hne (congrArg some heq.symm)
  have hcall : lfsReaddir lf lfs (some p) s.dirent s.sys = ((found, s₁.dirent), s₁.sys) := readDir_sys h
  obtain ⟨err, info, hread, _⟩ := lfsReaddir_cases hcall
  have hother := hp.dirRead_other p s.sys q hq
  rwa [hread] at hother

/-- A `readdir` that does not return NULL delivers the next entry, or the end mark behind the last. -/
theorem readDir_step (hp : Presents g pathMax libc lf lfs px dirs left) {p : Ptr}
    {rest : List LfsInfo} (hrest : dirs s.sys p = some rest) (hnames : ∀ info ∈ rest, info.Named)
    (h : s.readDir (vfsLfs libc lf lfs) (some p) = (true, s₁)) :
    rest = [] ∧ s₁.dirent.type = .endMark ∨ ∃ info rest', rest = info :: rest' ∧
      dirs s₁.sys p = some rest' ∧ s₁.dirent.Shows info := by
  have hcall : lfsReaddir lf lfs (some p) s.dirent s.sys = ((true, s₁.dirent), s₁.sys) := readDir_sys h
  obtain ⟨err, info, hread, hcases⟩ := lfsReaddir_cases hcall
  have hnext := hp.dirRead p s.sys rest hrest
  rw [hread] at hnext
  simp only at hnext
  obtain ⟨hfalse, _⟩ | ⟨_, rfl, hslot⟩ | ⟨_, hpos, hlen, hslot⟩ := hcases
  · cases hfalse
  · obtain hneg | ⟨_, hnil⟩ | ⟨hpos, _⟩ := hnext
    · omega
    · exact .inl ⟨hnil, by rw [hslot]; rfl⟩
    · omega
  · obtain hneg | ⟨herr, _⟩ | ⟨_, rest', rfl, hdirs⟩ := hnext
    · omega
    · omega
    · have hnul := (hnames info List.mem_cons_self).1
      refine .inr ⟨info, rest', rfl, hdirs, ?_, by rw [hslot]; rfl⟩
      rw [hslot, Dirent.setEntry_name _ hlen, cstr_of_nul_not_mem hnul]

theorem closeDir_other (hp : Presents g pathMax libc lf lfs px dirs left) {p q : Ptr} (hq : q ≠ p)
    (s : WalkState σ) :
    dirs (s.closeDir (vfsLfs libc lf lfs) (some p)).2.sys q = dirs s.sys q :=
  lfsClosedir_keeps (hp.allocator.comp fun d => d q) (hp.dirClose_other p s.sys q hq)

theorem target_keeps (hp : Presents g pathMax libc lf lfs px dirs left) (contextPath : CString) :
    VfsKeeps (vfsNative libc px contextPath) dirs :=
  vfsNative_keeps hp.allocator hp.system contextPath

theorem makeDir_dirs (hp : Presents g pathMax libc lf lfs px dirs left) {dir : CString} {err : Int}
    (h : s.makeDir (vfsNative libc px contextPath) dir = (err, s₁)) : dirs s₁.sys = dirs s.sys :=
  makeDir_keeps ((hp.target_keeps contextPath).mkdir dir) h

theorem writeBuffer_dirs (hp : Presents g pathMax libc lf lfs px dirs left) {out : Option NativeFile}
    {rb wb : Int} (h : s.writeBuffer (vfsNative libc px contextPath) out rb = (wb, s₁)) :
    dirs s₁.sys = dirs s.sys :=
  writeBuffer_keeps ((hp.target_keeps contextPath).write _ _ _ _) h

theorem readBuffer_dirs (hp : Presents g pathMax libc lf lfs px dirs left) {file : Ptr} {rb : Int}
    (h : s.readBuffer (vfsLfs libc lf lfs) (some file) = (rb, s₁)) : dirs s₁.sys = dirs s.sys :=
  readBuffer_keeps (lfsRead_keeps (hp.fileRead file bufferSize s.sys)) h

theorem readBuffer_left (hp : Presents g pathMax libc lf lfs px dirs left) {file : Ptr} {rb : Int}
    (hrb : 0 ≤ rb) (h : s.readBuffer (vfsLfs libc lf lfs) (some file) = (rb, s₁)) :
    rb + left s₁.sys file ≤ left s.sys file := by
  have hcall : lfsRead lf lfs (some file) s.mBuffer bufferSize s.sys = ((rb, s₁.mBuffer), s₁.sys) :=
    readBuffer_sys h
  obtain ⟨o, hread, hback⟩ := lfsRead_cases hcall
  have hleft := hp.fileRead_left file bufferSize s.sys
  rw [hread] at hleft
  generalize s₁.mBuffer = buf at hback
  cases hback with
  | error hneg => omega
  | @bytes data => exact_mod_cast hleft data rfl

theorem writeBuffer_left (hp : Presents g pathMax libc lf lfs px dirs left) {out : Option NativeFile}
    {rb wb : Int} (h : s.writeBuffer (vfsNative libc px contextPath) out rb = (wb, s₁)) :
    left s₁.sys = left s.sys := by
  refine writeBuffer_keeps ?_ h
  cases out with
  | none => rfl
  | some out => exact nativeWrite_keeps (hp.write_left _ _ _)

/-! ### Directories that are open further up -/

variable {s' : WalkState σ} {r : Int}

theorem copyRun_dirs (hp : Presents g pathMax libc lf lfs px dirs left) {file : Ptr}
    {out : Option NativeFile}
    (h : CopyRun (vfsLfs libc lf lfs) (vfsNative libc px contextPath) (some file) out s r s') :
    dirs s'.sys = dirs s.sys := by
  induction h with
  | readFail hr _ => exact hp.readBuffer_dirs hr
  | writeFail hr _ hw _ => exact (hp.writeBuffer_dirs hw).trans (hp.readBuffer_dirs hr)
  | last hr _ hw _ => exact (hp.writeBuffer_dirs hw).trans (hp.readBuffer_dirs hr)
  | more hr _ hw _ _ ih => exact ih.trans ((hp.writeBuffer_dirs hw).trans (hp.readBuffer_dirs hr))

theorem fileRun_dirs (hp : Presents g pathMax libc lf lfs px dirs left) {path : CString}
    (h : FileRun (vfsLfs libc lf lfs) (vfsNative libc px contextPath) path s r s') :
    dirs s'.sys = dirs s.sys := by
  have ht := hp.target_keeps contextPath
  have hopen : ∀ w, dirs ((vfsLfs libc lf lfs).open_ path O_RDONLY w).2 = dirs w :=
    lfsOpen_keeps hp.allocator fun file w => hp.fileOpen file path _ w
  cases h with
  | outFail ho => exact openFile_keeps (ht.open_ _ _) ho
  | inFail ho hi =>
    have hopened := (openFile_keeps hopen hi).trans (openFile_keeps (ht.open_ _ _) ho)
    exact (ht.close _ _).trans hopened
  | @copied _ _ _ out inn _ ho hi hc =>
    have hopened := (openFile_keeps hopen hi).trans (openFile_keeps (ht.open_ _ _) ho)
    have hcopied := (hp.copyRun_dirs hc).trans hopened
    have hclosed := (lfsClose_keeps hp.allocator (hp.fileClose inn _)).trans hcopied
    exact (ht.close _ _).trans hclosed

/-- A run leaves alone what was open before and is not its own. -/
theorem walkRun_dirs (hp : Presents g pathMax libc lf lfs px dirs left) {task : Task Ptr}
    (h : WalkRun libc (vfsLfs libc lf lfs) (vfsNative libc px contextPath) task s r s') :
    ∀ q l, task.handle ≠ some q → dirs s.sys q = some l → dirs s'.sys q = some l := by
  have hfree := hp.allocator.free
  induction h with
  | mkdirFail hm _ =>
    intro q l _ hq
    rw [freePath, hfree, hp.makeDir_dirs hm, hq]
  | opendirFail hm ho =>
    intro q l _ hq
    rw [freePath, hfree]
    refine (hp.openDir_step ho).1 q l ?_
    rw [hp.makeDir_dirs hm, hq]
  | @opened dir s s₁ s₂ s₃ p r hm ho _ ih =>
    intro q l _ hq
    have hq₁ : dirs s₁.sys q = some l := by rw [hp.makeDir_dirs hm, hq]
    obtain ⟨hkeep, hnew⟩ := hp.openDir_step ho
    have hne : q ≠ p := by
      rintro rfl
      rw [(hnew q rfl).1] at hq₁
      cases hq₁
    rw [hp.closeDir_other hne]
    exact ih q l (fun heq => hne (Option.some.inj heq).symm) (hkeep q l hq₁)
  | readdirFail hd =>
    intro q l hne hq
    rw [freePath, hfree, hp.readDir_other hne hd, hq]
  | finished hd _ =>
    intro q l hne hq
    rw [freePath, hfree, hp.readDir_other hne hd, hq]
  | allocFail hd _ ha =>
    intro q l hne hq
    rw [freePath, hfree, entryPath_keeps hp.allocator ha, hp.readDir_other hne hd, hq]
  | entryFail hd _ ha _ _ ih =>
    intro q l hne hq
    rw [freePath, hfree]
    refine ih q l (Option.some_ne_none q).symm ?_
    rw [entryPath_keeps hp.allocator ha, hp.readDir_other hne hd, hq]
  | next hd _ ha _ _ ihe ihr =>
    intro q l hne hq
    refine ihr q l hne ?_
    rw [freePath, hfree]
    refine ihe q l (Option.some_ne_none q).symm ?_
    rw [entryPath_keeps hp.allocator ha, hp.readDir_other hne hd, hq]
  | file _ hf =>
    intro q l _ hq
    rw [hp.fileRun_dirs hf, hq]
  | subtree _ _ _ _ ih => exact fun q l _ => ih q l (Option.some_ne_none q).symm
  | skipped _ _ => exact fun q l _ hq => hq

theorem entry_step (hp : Presents g pathMax libc lf lfs px dirs left) {dir : CString} {p : Ptr}
    {rest : List LfsInfo} {path : HeapString} {s₂ : WalkState σ} (hrest : dirs s.sys p = some rest)
    (hnames : ∀ info ∈ rest, info.Named)
    (hd : s.readDir (vfsLfs libc lf lfs) (some p) = (true, s₁)) (hend : s₁.dirent.type ≠ .endMark)
    (ha : s₁.entryPath libc dir = (some path, s₂)) :
    ∃ info rest', rest = info :: rest' ∧ dirs s₂.sys p = some rest' ∧ s₂.dirent.Shows info ∧
      path.str = joinPath dir info.name := by
  obtain ⟨_, hmark⟩ | ⟨info, rest', hcons, hdirs, hslot⟩ := hp.readDir_step hrest hnames hd
  · exact absurd hmark hend
  · obtain ⟨happend, hdirent⟩ := entryPath_sys ha
    refine ⟨info, rest', hcons, ?_, hdirent ▸ hslot, ?_⟩
    · rw [entryPath_keeps hp.allocator ha, hdirs]
    · rw [appendDirAlloc_some happend, hslot.name]

theorem after_entry (hp : Presents g pathMax libc lf lfs px dirs left) {p : Ptr}
    {rest : List LfsInfo} {path : CString} (hrest : dirs s.sys p = some rest)
    (h : WalkRun libc (vfsLfs libc lf lfs) (vfsNative libc px contextPath) (.entry path) s r s')
    (o : Option HeapString) : dirs (s'.freePath libc o).sys p = some rest := by
  rw [freePath, hp.allocator.free]
  exact hp.walkRun_dirs h p rest (Option.some_ne_none p).symm hrest

/-! ### Runs without an error -/

theorem walkRun_extractable (hp : Presents g pathMax libc lf lfs px dirs left) {task : Task Ptr}
    (h : WalkRun libc (vfsLfs libc lf lfs) (vfsNative libc px contextPath) task s r s') :
    r = 0 → task.ExtractableAt g contextPath pathMax dirs s := by
  induction h with
  | opened hm ho _ ih =>
    intro h0
    obtain ⟨_, hnew⟩ := hp.openDir_step ho
    obtain ⟨_, entries, hlisting, hdirs⟩ := hnew _ rfl
    exact .mk (hp.makeDir_fits hm) hlisting (ih h0 entries hdirs (g.names _ _ hlisting))
  | finished hd hend =>
    intro _ rest hrest hnames
    obtain ⟨rfl, _⟩ | ⟨info, rest', _, _, hslot⟩ := hp.readDir_step hrest hnames hd
    · exact fun info hinfo => absurd hinfo List.not_mem_nil
    · have htype := hslot.type
      rw [hend] at htype
      split at htype <;> cases htype
  | next hd hend ha he _ ihe ihr =>
    intro h0 rest hrest hnames
    obtain ⟨info, rest', rfl, hdirs, hslot, hpath⟩ := hp.entry_step hrest hnames hd hend ha
    obtain ⟨_, hnames'⟩ := List.forall_mem_cons.mp hnames
    refine List.forall_mem_cons.mpr ⟨fun hinfo => ?_, ?_⟩
    · rw [← hpath]
      exact ihe rfl info hslot hinfo
    · exact ihr h0 rest' (hp.after_entry hdirs he _) hnames'
  | file hfile _ => exact fun _ info hslot hinfo => absurd (hslot.file_iff.mp hfile) hinfo.1
  | subtree _ _ _ _ ih => exact fun h0 _ _ _ => ih h0
  | skipped _ hdots =>
    intro _ info hslot hinfo
    obtain ⟨_, hdot, hdotdot⟩ := hslot.descends_iff.mp hinfo
    exact (hdots.elim hdot hdotdot).elim
  | _ => intro h0; cases h0

/-! ### Runs of what is not stuck -/

theorem exists_copyRun (hp : Presents g pathMax libc lf lfs px dirs left) (file : Ptr)
    (out : Option NativeFile) : ∀ n s, left s.sys file ≤ n →
    ∃ r s', CopyRun (vfsLfs libc lf lfs) (vfsNative libc px contextPath) (some file) out s r s' := by
  intro n
  induction n using Nat.strong_induction_on with
  | _ n ih =>
    intro s hn
    obtain ⟨rb, s₁, hr⟩ : ∃ rb s₁, s.readBuffer (vfsLfs libc lf lfs) (some file) = (rb, s₁) :=
      ⟨_, _, rfl⟩
    by_cases hrb : 0 ≤ rb
    · obtain ⟨wb, s₂, hw⟩ :
          ∃ wb s₂, s₁.writeBuffer (vfsNative libc px contextPath) out rb = (wb, s₂) := ⟨_, _, rfl⟩
      by_cases hwb : wb = rb
      · subst hwb
        by_cases hfull : wb = bufferSize
        · have hread := hp.readBuffer_left hrb hr
          have hpos : (0 : Int) < bufferSize := by decide
          have hleft : left s₂.sys file < n := by
            rw [hp.writeBuffer_left hw]
            omega
          obtain ⟨r, s', hrun⟩ := ih _ hleft s₂ (Nat.le_refl _)
          exact ⟨r, s', .more hr hrb hw hfull hrun⟩
        · exact ⟨0, s₂, .last hr hrb hw hfull⟩
      · exact ⟨-1, s₂, .writeFail hr hrb hw hwb⟩
    · exact ⟨-1, s₁, .readFail hr (Int.not_le.mp hrb)⟩

theorem exists_fileRun (hp : Presents g pathMax libc lf lfs px dirs left) (path : CString)
    (s : WalkState σ) :
    ∃ r s', FileRun (vfsLfs libc lf lfs) (vfsNative libc px contextPath) path s r s' := by
  obtain ⟨out, s₁, ho⟩ : ∃ out s₁, s.openFile (vfsNative libc px contextPath) path
      (O_CREAT ||| O_TRUNC ||| O_WRONLY) = (out, s₁) := ⟨_, _, rfl⟩
  obtain ⟨inn, s₂, hi⟩ : ∃ inn s₂, s₁.openFile (vfsLfs libc lf lfs) path O_RDONLY = (inn, s₂) :=
    ⟨_, _, rfl⟩
  cases out with
  | none => exact ⟨-1, s₁, .outFail ho⟩
  | some out =>
    cases inn with
    | none => exact ⟨-1, _, .inFail ho hi⟩
    | some file =>
      obtain ⟨r, s₃, hc⟩ := hp.exists_copyRun file (some out) _ s₂ (Nat.le_refl _)
      exact ⟨r, _, .copied ho hi hc⟩

theorem exists_entryRun (hp : Presents g pathMax libc lf lfs px dirs left) {path : CString}
    {info : LfsInfo} (hslot : s.dirent.Shows info)
    (hsub : info.Descends → HasRuns libc (vfsLfs libc lf lfs) (vfsNative libc px contextPath) path) :
    ∃ r s', WalkRun libc (vfsLfs libc lf lfs) (vfsNative libc px contextPath) (.entry path) s r s' := by
  by_cases hfile : s.dirent.type = .file
  · obtain ⟨r, s', hf⟩ := hp.exists_fileRun path s
    exact ⟨r, s', .file hfile hf⟩
  · by_cases hdots : cstr s.dirent.name = dot ∨ cstr s.dirent.name = dotdot
    · exact ⟨0, s, .skipped hfile hdots⟩
    · obtain ⟨hdot, hdotdot⟩ := not_or.mp hdots
      obtain ⟨r, s', hrun⟩ := hsub (hslot.descends_iff.mpr ⟨hfile, hdot, hdotdot⟩) s
      exact ⟨r, s', .subtree hfile hdot hdotdot hrun⟩

/-- A run of the entry loop from any entry on, by induction on the entries that are left, those before
having been extracted without an error. -/
theorem exists_entriesRun (hp : Presents g pathMax libc lf lfs px dirs left) {dir : CString} {p : Ptr}
    (hsub : ∀ before info after, g.listing dir = some (before ++ info :: after) →
      (∀ i ∈ before, i.Descends → Extractable g contextPath pathMax (joinPath dir i.name)) →
      info.Descends → HasRuns libc (vfsLfs libc lf lfs) (vfsNative libc px contextPath)
        (joinPath dir info.name)) :
    ∀ rest before, g.listing dir = some (before ++ rest) →
      (∀ i ∈ before, i.Descends → Extractable g contextPath pathMax (joinPath dir i.name)) →
      ∀ s, dirs s.sys p = some rest → ∃ r s', WalkRun libc (vfsLfs libc lf lfs)
        (vfsNative libc px contextPath) (.entries dir p) s r s' := by
  intro rest
  induction rest with
  | nil =>
    intro before _ _ s hrest
    obtain ⟨found, s₁, hd⟩ : ∃ found s₁, s.readDir (vfsLfs libc lf lfs) (some p) = (found, s₁) :=
      ⟨_, _, rfl⟩
    cases found with
    | false => exact ⟨-1, _, .readdirFail hd⟩
    | true =>
      obtain ⟨_, hend⟩ | ⟨_, _, hcons, _⟩ := hp.readDir_step hrest (List.forall_mem_nil _) hd
      · exact ⟨0, _, .finished hd hend⟩
      · cases hcons
  | cons info rest ih =>
    intro before hlisting hbefore s hrest
    have hnames : ∀ i ∈ info :: rest, i.Named := fun i hi =>
      g.names _ _ hlisting i (List.mem_append_right before hi)
    obtain ⟨found, s₁, hd⟩ : ∃ found s₁, s.readDir (vfsLfs libc lf lfs) (some p) = (found, s₁) :=
      ⟨_, _, rfl⟩
    obtain ⟨path, s₂, ha⟩ : ∃ path s₂, s₁.entryPath libc dir = (path, s₂) := ⟨_, _, rfl⟩
    cases found with
    | false => exact ⟨-1, _, .readdirFail hd⟩
    | true =>
      by_cases hend : s₁.dirent.type = .endMark
      · exact ⟨0, _, .finished hd hend⟩
      · cases path with
        | none => exact ⟨-1, _, .allocFail hd hend ha⟩
        | some path =>
          obtain ⟨_, _, hcons, hdirs, hslot, hpath⟩ := hp.entry_step hrest hnames hd hend ha
          cases hcons
          obtain ⟨err, s₃, he⟩ := hp.exists_entryRun hslot fun hinfo =>
            hpath ▸ hsub before info rest hlisting hbefore hinfo
          by_cases herr : err = 0
          · subst herr
            have hext := hp.walkRun_extractable he rfl info hslot
            rw [hpath] at hext
            have hbefore' : ∀ i ∈ before ++ [info], i.Descends →
                Extractable g contextPath pathMax (joinPath dir i.name) := by
              intro i hi
              rcases List.mem_append.mp hi with hi | hi
              · exact hbefore i hi
              · rw [List.mem_singleton.mp hi]
                exact hext
            obtain ⟨r, s', hrun⟩ := ih (before ++ [info]) (by simpa using hlisting) hbefore' _
              (hp.after_entry hdirs he (some path))
            exact ⟨r, s', .next hd hend ha he hrun⟩
          · exact ⟨-1, _, .entryFail hd hend ha he herr⟩

/-- By induction on what the path of the directory lacks to the longest path. -/
theorem hasRuns (hp : Presents g pathMax libc lf lfs px dirs left) :
    ∀ n dir, pathMax + 1 - (joinPath contextPath dir).length ≤ n → dir ≠ [] →
      ¬Stuck g contextPath pathMax dir →
      HasRuns libc (vfsLfs libc lf lfs) (vfsNative libc px contextPath) dir := by
  intro n
  induction n using Nat.strong_induction_on with
  | _ n ih =>
    intro dir hn hdir hstuck s
    obtain ⟨err, s₁, hm⟩ : ∃ err s₁, s.makeDir (vfsNative libc px contextPath) dir = (err, s₁) :=
      ⟨_, _, rfl⟩
    obtain ⟨o, s₂, ho⟩ : ∃ o s₂, s₁.openDir (vfsLfs libc lf lfs) dir = (o, s₂) := ⟨_, _, rfl⟩
    by_cases herr : err = 0
    · subst herr
      cases o with
      | none => exact ⟨-1, _, .opendirFail hm ho⟩
      | some p =>
        have hfits : Fits contextPath pathMax dir := hp.makeDir_fits hm
        -- every directory `traversal` calls itself for has a longer path
        have hsub : ∀ before info after, g.listing dir = some (before ++ info :: after) →
            (∀ i ∈ before, i.Descends → Extractable g contextPath pathMax (joinPath dir i.name)) →
            info.Descends → HasRuns libc (vfsLfs libc lf lfs) (vfsNative libc px contextPath)
              (joinPath dir info.name) := by
          intro before info after hlisting hbefore hinfo
          have hlonger : dir.length < (joinPath dir info.name).length :=
            length_lt_joinPath hdir fun hsame =>
              hstuck (.here hfits hlisting hbefore hinfo hsame.1 hsame.2)
          have hnative := length_joinPath_lt contextPath hlonger
          have hlt : pathMax + 1 - (joinPath contextPath (joinPath dir info.name)).length < n := by
            unfold Fits at hfits
            omega
          have hdir' : joinPath dir info.name ≠ [] := List.length_pos_iff.mp (by omega)
          exact ih _ hlt _ (Nat.le_refl _) hdir' fun hs =>
            hstuck (.deeper hfits hlisting hbefore hinfo hs)
        obtain ⟨_, hnew⟩ := hp.openDir_step ho
        obtain ⟨_, entries, hlisting, hdirs⟩ := hnew p rfl
        obtain ⟨r, s₃, hrun⟩ := hp.exists_entriesRun hsub entries [] hlisting
          (List.forall_mem_nil _) s₂ hdirs
        exact ⟨r, _, .opened hm ho hrun⟩
    · exact ⟨-1, _, .mkdirFail hm herr⟩

end Presents

end Presents

/-! ## A world where no call fails -/

structure Stage where
  /-- The next address `malloc` returns. -/
  next : Ptr
  dirs : Ptr → Option (List LfsInfo)
  made : List CString
  fresh : ∀ p, next ≤ p → dirs p = none

namespace Stage

def empty : Stage := ⟨1, fun _ => none, [], fun _ _ => rfl⟩

def setDir (w : Stage) (dir : Ptr) (entries : Option (List LfsInfo)) : Stage where
  next := max w.next (dir + 1)
  dirs := Function.update w.dirs dir entries
  made := w.made
  fresh p hp := by
    obtain ⟨hnext, hdir⟩ := Nat.max_le.mp hp
    rw [Function.update_of_ne (Nat.ne_of_gt hdir)]
    exact w.fresh p hnext

@[simp] theorem setDir_dirs_self (w : Stage) (dir : Ptr) (entries : Option (List LfsInfo)) :
    (w.setDir dir entries).dirs dir = entries :=
  Function.update_self ..

theorem setDir_dirs_ne (w : Stage) {dir p : Ptr} (entries : Option (List LfsInfo)) (h : p ≠ dir) :
    (w.setDir dir entries).dirs p = w.dirs p :=
  Function.update_of_ne h ..

end Stage

abbrev ENAMETOOLONG : Nat := 36
abbrev LFS_ERR_BADF : Int := -9

def stageLibc : Libc Stage where
  malloc _ w := (some w.next, { w with
    next := w.next + 1
    fresh := fun p hp => w.fresh p (Nat.le_of_succ_le hp) })
  free _ w := w

def stageLfs (g : Graph) : Lfs Stage where
  format _ w := (0, w)
  mount _ _ w := (0, w)
  unmount _ w := (0, w)
  mkdir _ _ w := (0, w)
  fileOpen _ _ _ _ w := (0, w)
  fileClose _ _ w := (0, w)
  fileRead _ _ _ w := (some [], w)
  fileWrite _ _ data w := (some data.length, w)
  dirOpen _ dir path w :=
    match g.listing path with
    | none => (LFS_ERR_NOENT, w)
    | some entries => (0, w.setDir dir (some entries))
  dirClose _ dir w := (0, w.setDir dir none)
  dirRead _ dir w :=
    match w.dirs dir with
    | none => ((LFS_ERR_BADF, ⟨0, []⟩), w)
    | some [] => ((0, ⟨0, []⟩), w)
    | some (info :: rest) => ((1, info), w.setDir dir (some rest))

def stagePosix (pathMax : Nat) : Posix Stage where
  open_ _ _ w := (3, w)
  close _ w := (0, w)
  read _ _ w := (some [], w)
  write _ data w := (some data.length, w)
  opendir _ w := (none, w)
  closedir _ w := (0, w)
  readdir _ w := (.endOfDir, w)
  stat _ w := (none, w)
  mkdir path w :=
    match path with
    | none => ((-1, EFAULT), w)
    | some path =>
      if path.length > pathMax then ((-1, ENAMETOOLONG), w)
      else if path ∈ w.made then ((-1, EEXIST), w)
      else ((0, 0), { w with made := path :: w.made })

theorem stage_presents (g : Graph) (pathMax : Nat) (lfs : Option Ptr) :
    Presents g pathMax stageLibc (stageLfs g) lfs (stagePosix pathMax) Stage.dirs fun _ _ => 0 where
  allocator := ⟨fun _ _ => rfl, fun _ _ => rfl⟩
  fresh _ w p hp := w.fresh p (Nat.le_of_eq (Option.some.inj hp))
  system := by
    refine ⟨fun _ _ _ => rfl, fun _ _ => rfl, fun _ _ _ => rfl, fun _ _ _ => rfl, fun _ _ => rfl,
      fun _ _ => rfl, fun _ _ => rfl, fun _ _ => rfl, fun path w => ?_⟩
    cases path with
    | none => rfl
    | some path =>
      simp only [stagePosix]
      split
      · rfl
      · split <;> rfl
  write_left _ _ _ := rfl
  fileOpen _ _ _ _ := rfl
  fileClose _ _ := rfl
  fileRead _ _ _ := rfl
  fileRead_left _ _ _ data hdata := by
    cases hdata
    exact Nat.le_refl 0
  dirOpen dir path w h := by
    simp only [stageLfs] at h ⊢
    cases hlisting : g.listing path with
    | none => simp [hlisting] at h
    | some entries => exact ⟨entries, rfl, by simp⟩
  dirOpen_other dir path w p hne := by
    simp only [stageLfs]
    split
    · rfl
    · exact w.setDir_dirs_ne _ hne
  dirRead dir w rest hrest := by
    simp only [stageLfs, hrest]
    cases rest with
    | nil => exact .inr (.inl ⟨rfl, rfl⟩)
    | cons info rest => exact .inr (.inr ⟨Int.one_pos, rest, rfl, by simp⟩)
  dirRead_other dir w p hne := by
    simp only [stageLfs]
    split
    · rfl
    · rfl
    · exact w.setDir_dirs_ne _ hne
  dirClose_other dir w p hne := w.setDir_dirs_ne _ hne
  mkdir_long path w h := by
    simp only [stagePosix, if_pos h]
    decide
  mkdir_null _ := ⟨show (-1 : Int) ≠ 0 by decide, show EFAULT ≠ EEXIST by decide⟩

section Stage

variable {g : Graph} {pathMax : Nat} {lfs : Option Ptr} {contextPath : CString}
  {s s₁ s' : WalkState Stage}

theorem makeDir_stage {dir : CString} {err : Int} (hfits : Fits contextPath pathMax dir)
    (h : s.makeDir (vfsNative stageLibc (stagePosix pathMax) contextPath) dir = (err, s₁)) : err = 0 := by
  have hcall : (nativeMkdir stageLibc (stagePosix pathMax) contextPath dir s.sys).1 = err :=
    congrArg Prod.fst (makeDir_sys h)
  have hshort : ¬(joinPath contextPath dir).length > pathMax := Nat.not_lt_of_le hfits
  simp only [nativeMkdir, appendDirAlloc, stageLibc, stagePosix, Option.map_some, if_neg hshort] at hcall
  rw [← hcall]
  by_cases hmade : joinPath contextPath dir ∈ s.sys.made
  · simp [hmade]
  · simp [hmade]

theorem openDir_stage {dir : CString} (h : s.openDir (vfsLfs stageLibc (stageLfs g) lfs) dir = (none, s₁)) :
    g.listing dir = none := by
  have hcall : lfsOpendir stageLibc (stageLfs g) lfs dir s.sys = (none, s₁.sys) := openDir_sys h
  simp only [lfsOpendir, stageLibc, stageLfs] at hcall
  cases hlisting : g.listing dir with
  | none => rfl
  | some entries => simp [hlisting] at hcall

theorem readDir_stage {p : Ptr} {rest : List LfsInfo} {found : Bool} (hrest : s.sys.dirs p = some rest)
    (hnames : ∀ info ∈ rest, info.Named)
    (h : s.readDir (vfsLfs stageLibc (stageLfs g) lfs) (some p) = (found, s₁)) : found = true := by
  have hcall : (lfsReaddir (stageLfs g) lfs (some p) s.dirent s.sys).1.1 = found :=
    congrArg (·.1.1) (readDir_sys h)
  cases rest with
  | nil =>
    simp only [lfsReaddir, stageLfs, hrest] at hcall
    exact hcall.symm
  | cons info rest =>
    have hlen : info.name.length < VFS_MAX_NAME_LEN :=
      Nat.lt_of_le_of_lt (hnames info List.mem_cons_self).2 (by decide)
    simp only [lfsReaddir, stageLfs, hrest, hlen] at hcall
    exact hcall.symm

theorem entryPath_stage {dir : CString} {r : Option HeapString}
    (h : s.entryPath stageLibc dir = (r, s₁)) : r ≠ none := by
  obtain ⟨hcall, _⟩ := entryPath_sys h
  rintro rfl
  cases hcall

theorem copyRun_stage {file : Ptr} {out : NativeFile} {r : Int}
    (h : CopyRun (vfsLfs stageLibc (stageLfs g) lfs) (vfsNative stageLibc (stagePosix pathMax) contextPath)
      (some file) (some out) s r s') : r = 0 := by
  have hread : ∀ (s : WalkState Stage) rb s₁,
      s.readBuffer (vfsLfs stageLibc (stageLfs g) lfs) (some file) = (rb, s₁) → rb = 0 := by
    intro s rb s₁ h
    cases h
    rfl
  cases h with
  | readFail hr hrb =>
    rw [hread _ _ _ hr] at hrb
    cases hrb
  | writeFail hr _ hw hne =>
    rw [hread _ _ _ hr] at hw hne
    cases hw
    exact absurd rfl hne
  | last _ _ _ _ => rfl
  | more hr _ _ hfull _ =>
    rw [hread _ _ _ hr] at hfull
    cases hfull

theorem fileRun_stage {path : CString} {r : Int}
    (h : FileRun (vfsLfs stageLibc (stageLfs g) lfs) (vfsNative stageLibc (stagePosix pathMax) contextPath)
      path s r s') : r = 0 := by
  cases h with
  | outFail ho => cases ho
  | inFail _ hi => cases hi
  | copied _ _ hc => exact copyRun_stage hc

/-- What a run of a task on such a world says of the directories it goes through. -/
def Task.Left (g : Graph) (contextPath : CString) (pathMax : Nat) (s : WalkState Stage) (r : Int) :
    Task Ptr → Prop
  | .tree dir => (Extractable g contextPath pathMax dir → r = 0) ∧ ¬Stuck g contextPath pathMax dir
  | .entries dir p => ∀ rest, s.sys.dirs p = some rest → (∀ info ∈ rest, info.Named) →
      ((∀ info ∈ rest, info.Descends → Extractable g contextPath pathMax (joinPath dir info.name)) → r = 0) ∧
      ∀ before info after, rest = before ++ info :: after →
        (∀ i ∈ before, i.Descends → Extractable g contextPath pathMax (joinPath dir i.name)) →
        info.Descends → ¬Stuck g contextPath pathMax (joinPath dir info.name)
  | .entry path => ∀ info, s.dirent.Shows info →
      ((info.Descends → Extractable g contextPath pathMax path) → r = 0) ∧
      (info.Descends → ¬Stuck g contextPath pathMax path)

/-- By induction on the run, which would have to contain itself for a directory that is stuck. -/
theorem walkRun_stage {task : Task Ptr} {r : Int}
    (h : WalkRun stageLibc (vfsLfs stageLibc (stageLfs g) lfs)
      (vfsNative stageLibc (stagePosix pathMax) contextPath) task s r s') :
    task.Left g contextPath pathMax s r := by
  have hp := stage_presents g pathMax lfs
  induction h with
  | mkdirFail hm herr =>
    exact ⟨fun hext => absurd (makeDir_stage hext.fits hm) herr,
      fun hstuck => herr (makeDir_stage hstuck.fits hm)⟩
  | opendirFail _ ho =>
    have hnone := openDir_stage ho
    refine ⟨fun hext => ?_, fun hstuck => ?_⟩
    · obtain ⟨_, hlisting, _⟩ := hext
      rw [hnone] at hlisting
      cases hlisting
    · obtain ⟨_, _, _, hlisting, _⟩ := hstuck.entry
      rw [hnone] at hlisting
      cases hlisting
  | opened _ ho _ ih =>
    obtain ⟨_, hnew⟩ := hp.openDir_step ho
    obtain ⟨_, entries, hlisting, hdirs⟩ := hnew _ rfl
    obtain ⟨hzero, hleave⟩ := ih entries hdirs (g.names _ _ hlisting)
    refine ⟨fun hext => hzero ?_, fun hstuck => ?_⟩
    · obtain ⟨_, hlisting', hentries⟩ := hext
      rw [hlisting] at hlisting'
      cases hlisting'
      exact hentries
    · obtain ⟨before, info, after, hlisting', hbefore, hinfo, hs⟩ := hstuck.entry
      rw [hlisting] at hlisting'
      cases hlisting'
      exact hleave before info after rfl hbefore hinfo hs
  | readdirFail hd =>
    intro rest hrest hnames
    cases readDir_stage hrest hnames hd
  | finished hd hend =>
    intro rest hrest hnames
    obtain ⟨rfl, _⟩ | ⟨info, rest', _, _, hslot⟩ := hp.readDir_step hrest hnames hd
    · refine ⟨fun _ => rfl, fun before info after hnil => ?_⟩
      cases before <;> cases hnil
    · have htype := hslot.type
      rw [hend] at htype
      split at htype <;> cases htype
  | allocFail _ _ ha => exact (entryPath_stage ha rfl).elim
  | entryFail hd hend ha _ herr ih =>
    intro rest hrest hnames
    obtain ⟨info, rest', rfl, _, hslot, hpath⟩ := hp.entry_step hrest hnames hd hend ha
    obtain ⟨hzero, hleave⟩ := ih info hslot
    rw [hpath] at hzero hleave
    refine ⟨fun hext => absurd (hzero (hext info List.mem_cons_self)) herr, ?_⟩
    intro before i after heq hbefore hi
    cases before with
    | nil =>
      cases heq
      exact hleave hi
    | cons i' before =>
      cases heq
      exact absurd (hzero (hbefore _ List.mem_cons_self)) herr
  | next hd hend ha he _ ihe ihr =>
    intro rest hrest hnames
    obtain ⟨info, rest', rfl, hdirs, hslot, hpath⟩ := hp.entry_step hrest hnames hd hend ha
    obtain ⟨_, hleave⟩ := ihe info hslot
    rw [hpath] at hleave
    obtain ⟨_, hnames'⟩ := List.forall_mem_cons.mp hnames
    obtain ⟨hzero', hleave'⟩ := ihr rest' (hp.after_entry hdirs he _) hnames'
    refine ⟨fun hext => hzero' (List.forall_mem_cons.mp hext).2, ?_⟩
    intro before i after heq hbefore hi
    cases before with
    | nil =>
      cases heq
      exact hleave hi
    | cons i' before =>
      cases heq
      exact hleave' before i after rfl (List.forall_mem_cons.mp hbefore).2 hi
  | file hfile hf =>
    exact fun info hslot => ⟨fun _ => fileRun_stage hf,
      fun hinfo => absurd (hslot.file_iff.mp hfile) hinfo.1⟩
  | subtree hfile hdot hdotdot _ ih =>
    intro info hslot
    have hinfo := hslot.descends_iff.mpr ⟨hfile, hdot, hdotdot⟩
    exact ⟨fun hext => ih.1 (hext hinfo), fun _ => ih.2⟩
  | skipped _ hdots =>
    intro info hslot
    refine ⟨fun _ => rfl, fun hinfo => ?_⟩
    obtain ⟨_, hdot, hdotdot⟩ := hslot.descends_iff.mp hinfo
    exact (hdots.elim hdot hdotdot).elim

theorem traversal_stage_stuck {dir : CString} (hstuck : Stuck g contextPath pathMax dir) (fuel : Nat)
    (s : WalkState Stage) : traversal stageLibc (vfsLfs stageLibc (stageLfs g) lfs)
      (vfsNative stageLibc (stagePosix pathMax) contextPath) fuel dir s = none := by
  cases h : traversal stageLibc (vfsLfs stageLibc (stageLfs g) lfs)
      (vfsNative stageLibc (stagePosix pathMax) contextPath) fuel dir s with
  | none => rfl
  | some result => exact absurd hstuck (walkRun_stage (traversal_run h)).2

end Stage

/-! ## When an extraction returns -/

theorem not_terminates_of_stuck {g : Graph} {contextPath : CString} {pathMax : Nat}
    (hstuck : Stuck g contextPath pathMax [slash]) : ¬ExtractionTerminates g contextPath pathMax := by
  intro hterm
  obtain ⟨fuel, r, s', h⟩ := hterm Stage stageLibc (stageLfs g) (some 0) (stagePosix pathMax) _ _
    (stage_presents g pathMax (some 0)) (.start .empty)
  rw [traversal_stage_stuck hstuck] at h
  cases h

theorem terminates_of_not_stuck {g : Graph} {contextPath : CString} {pathMax : Nat}
    (hstuck : ¬Stuck g contextPath pathMax [slash]) : ExtractionTerminates g contextPath pathMax := by
  intro σ libc lf lfs px dirs left hp s
  obtain ⟨r, s', hrun⟩ := hp.hasRuns _ _ (Nat.le_refl _) (List.cons_ne_nil slash []) hstuck s
  obtain ⟨fuel, h⟩ := traversal_iff_run.mpr hrun
  exact ⟨fuel, r, s', h⟩

theorem extraction_terminates_iff (g : Graph) (contextPath : CString) (pathMax : Nat) :
    ExtractionTerminates g contextPath pathMax ↔ ¬Stuck g contextPath pathMax [slash] :=
  ⟨fun hterm hstuck => not_terminates_of_stuck hstuck hterm, terminates_of_not_stuck⟩

theorem not_stuck_of_names {g : Graph} {contextPath : CString} {pathMax : Nat}
    (h : ∀ path entries, g.listing path = some entries →
      ∀ info ∈ entries, info.Descends → info.name ≠ []) (dir : CString) :
    ¬Stuck g contextPath pathMax dir := by
  intro hstuck
  induction hstuck with
  | here _ hlisting _ hinfo hname _ =>
    exact h _ _ hlisting _ (List.mem_append_right _ List.mem_cons_self) hinfo hname
  | deeper _ _ _ _ _ ih => exact ih

/-- Also of an image whose directories lead back, as long as every name has a byte. -/
theorem extraction_terminates_of_names {g : Graph} (h : ∀ path entries, g.listing path = some entries →
    ∀ info ∈ entries, info.Descends → info.name ≠ []) (contextPath : CString) (pathMax : Nat) :
    ExtractionTerminates g contextPath pathMax :=
  terminates_of_not_stuck (not_stuck_of_names h [slash])

/-- What the root directory of an image lists that has a directory with an empty name in it. -/
def emptyNameEntries : List LfsInfo := [⟨LFS_TYPE_DIR, dot⟩, ⟨LFS_TYPE_DIR, dotdot⟩, ⟨LFS_TYPE_DIR, []⟩]

def emptyName : Graph where
  listing path := if path = [slash] then some emptyNameEntries else none
  names path entries h := by
    split at h
    · cases h
      unfold LfsInfo.Named
      decide
    · cases h

theorem not_terminates_emptyName : ¬ExtractionTerminates emptyName [slash, 111, 117, 116] 4096 := by
  have hfits : Fits [slash, 111, 117, 116] 4096 [slash] := by
    unfold Fits
    decide
  have hlisting : emptyName.listing [slash] =
      some ([⟨LFS_TYPE_DIR, dot⟩, ⟨LFS_TYPE_DIR, dotdot⟩] ++ ⟨LFS_TYPE_DIR, []⟩ :: []) := rfl
  have hbefore : ∀ i ∈ [⟨LFS_TYPE_DIR, dot⟩, ⟨LFS_TYPE_DIR, dotdot⟩], ¬LfsInfo.Descends i := by
    unfold LfsInfo.Descends
    decide
  have hinfo : LfsInfo.Descends ⟨LFS_TYPE_DIR, []⟩ := by
    unfold LfsInfo.Descends
    decide
  exact not_terminates_of_stuck
    (.here hfits hlisting (fun i hi hdescends => absurd hdescends (hbefore i hi)) hinfo rfl rfl)

end LfsTool
