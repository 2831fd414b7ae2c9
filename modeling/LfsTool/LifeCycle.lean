import LfsTool.CommandLine
import LfsTool.ExitStatus
import LfsTool.Objects

/-!
# LfsTool.LifeCycle

The `lfs_t` of a run of `main`, from `mount` to `unmount`.

* `Lfs.watched`: littlefs with a record of the calls that are given an `lfs_t`, and of whether it is
  allocated at that moment. `watchedSys`: all the program calls, on an explicit heap.
* `Life.Step`: one `lfs_t` is mounted, used, and unmounted once.
* `Uses`, `WalkRun.uses`: a walk uses the mounted `lfs_t`, and does not free it.
* `lifecycle_iff`: when the calls of `main` are read by these steps.
-/

namespace LfsTool

open ObjectHeap PathSyntax Replay WalkState

/-! ## The calls of littlefs -/

/-- A call that is given an `lfs_t`, and whether that is an object that is allocated. -/
inductive LfsEvent where
  | mount (lfs : Ptr) (live : Bool) (err : Int)
  | use (lfs : Option Ptr) (live : Bool)
  | unmount (lfs : Option Ptr) (live : Bool) (err : Int)
  deriving DecidableEq

section Watched

variable {σ : Type}

def isLive (h : Heap σ) : Option Ptr → Bool
  | none => false
  | some p => decide (p ∈ h.live)

/-- littlefs with a record of its calls. `lfs_format` is given an `lfs_t` of its own. -/
def Lfs.watched (lf : Lfs σ) : Lfs (Logged LfsEvent (Heap σ)) where
  format c w := w.lift (lf.onHeap.format c w.sys)
  mount lfs c w :=
    let r := lf.onHeap.mount lfs c w.sys
    w.call r (.mount lfs (isLive w.sys (some lfs)) r.1)
  unmount lfs w :=
    let r := lf.onHeap.unmount lfs w.sys
    w.call r (.unmount lfs (isLive w.sys lfs) r.1)
  mkdir lfs path w := w.call (lf.onHeap.mkdir lfs path w.sys) (.use lfs (isLive w.sys lfs))
  fileOpen lfs file path flags w :=
    w.call (lf.onHeap.fileOpen lfs file path flags w.sys) (.use lfs (isLive w.sys lfs))
  fileClose lfs file w := w.call (lf.onHeap.fileClose lfs file w.sys) (.use lfs (isLive w.sys lfs))
  fileRead lfs file n w := w.call (lf.onHeap.fileRead lfs file n w.sys) (.use lfs (isLive w.sys lfs))
  fileWrite lfs file data w :=
    w.call (lf.onHeap.fileWrite lfs file data w.sys) (.use lfs (isLive w.sys lfs))
  dirOpen lfs dir path w := w.call (lf.onHeap.dirOpen lfs dir path w.sys) (.use lfs (isLive w.sys lfs))
  dirClose lfs dir w := w.call (lf.onHeap.dirClose lfs dir w.sys) (.use lfs (isLive w.sys lfs))
  dirRead lfs dir w := w.call (lf.onHeap.dirRead lfs dir w.sys) (.use lfs (isLive w.sys lfs))

def Stdio.onHeap (stdio : Stdio σ) : Stdio (Heap σ) where
  fopen image mode h := LfsTool.onHeap h (stdio.fopen image mode h.sys)
  fseek pos h := LfsTool.onHeap h (stdio.fseek pos h.sys)
  fread n h := LfsTool.onHeap h (stdio.fread n h.sys)
  fwrite data h := LfsTool.onHeap h (stdio.fwrite data h.sys)
  fputc c h := LfsTool.onHeap h (stdio.fputc c h.sys)
  fflush h := LfsTool.onHeap h (stdio.fflush h.sys)

def watchedSys (alloc : Nat → σ → Bool × σ) (stdio : Stdio σ) (lf : Lfs σ) (px : Posix σ) :
    Sys (Logged LfsEvent (Heap σ)) where
  libc := (heapLibc alloc).lift
  stdio := stdio.onHeap.lift
  lf := lf.watched
  px := px.onHeap.lift

theorem Lfs.watched_hom (lf : Lfs σ) : LfsHom Logged.sys lf.watched lf.onHeap :=
  ⟨fun _ _ _ => rfl, fun _ _ _ _ _ => rfl, fun _ _ _ => rfl, fun _ _ _ _ => rfl,
    fun _ _ _ _ => rfl, fun _ _ _ _ => rfl, fun _ _ _ => rfl, fun _ _ _ => rfl⟩

end Watched

inductive Life where
  | unset
  | mounted (lfs : Ptr)
  | failed
  | released
  deriving DecidableEq

/-- An `lfs_t` is used and unmounted when a `mount` of it has returned 0 and it is still allocated.
Nothing follows an `unmount` or a `mount` that failed. -/
inductive Life.Step : Life → LfsEvent → Life → Prop where
  | mount {lfs : Ptr} : Step .unset (.mount lfs true 0) (.mounted lfs)
  | mountFail {lfs : Ptr} {err : Int} : err ≠ 0 → Step .unset (.mount lfs true err) .failed
  | use {lfs : Ptr} : Step (.mounted lfs) (.use (some lfs) true) (.mounted lfs)
  | unmount {lfs : Ptr} {err : Int} : Step (.mounted lfs) (.unmount (some lfs) true err) .released

/-! ## A walk with a mounted `lfs_t` -/

section Uses

variable {σ : Type}

/-- The events from `log` on to `log'` are uses of the mounted `lfs_t`. -/
def UsedIn (p : Ptr) (log log' : List LfsEvent) : Prop :=
  ∃ es, log' = log ++ es ∧ Run Life.Step (.mounted p) es (.mounted p)

theorem UsedIn.none {p : Ptr} {log log' : List LfsEvent} (h : log' = log) : UsedIn p log log' :=
  ⟨[], by rw [h, List.append_nil], .nil⟩

theorem UsedIn.one {p : Ptr} {log log' : List LfsEvent} {live : Bool} (hlive : live = true)
    (h : log' = log ++ [.use (some p) live]) : UsedIn p log log' :=
  ⟨_, h, .single (hlive ▸ .use)⟩

/-- What a back end does with littlefs, as long as the `lfs_t` is allocated. -/
structure Uses {φ δ : Type} (v : Vfs (Logged LfsEvent (Heap σ)) φ δ) (p : Ptr) : Prop where
  open_ : ∀ path flags w, p ∈ w.sys.live → UsedIn p w.log (v.open_ path flags w).2.log
  close : ∀ fd w, p ∈ w.sys.live → UsedIn p w.log (v.close fd w).2.log
  read : ∀ fd buf n w, p ∈ w.sys.live → UsedIn p w.log (v.read fd buf n w).2.log
  write : ∀ fd buf n w, p ∈ w.sys.live → UsedIn p w.log (v.write fd buf n w).2.log
  opendir : ∀ path w, p ∈ w.sys.live → UsedIn p w.log (v.opendir path w).2.log
  closedir : ∀ dir w, p ∈ w.sys.live → UsedIn p w.log (v.closedir dir w).2.log
  readdir : ∀ dir slot w, p ∈ w.sys.live → UsedIn p w.log (v.readdir dir slot w).2.log
  mkdir : ∀ path w, p ∈ w.sys.live → UsedIn p w.log (v.mkdir path w).2.log

theorem Uses.of_keeps {φ δ : Type} {v : Vfs (Logged LfsEvent (Heap σ)) φ δ}
    (h : VfsKeeps v Logged.log) (p : Ptr) : Uses v p :=
  ⟨fun path flags w _ => .none (h.open_ path flags w), fun fd w _ => .none (h.close fd w),
    fun fd buf n w _ => .none (h.read fd buf n w), fun fd buf n w _ => .none (h.write fd buf n w),
    fun path w _ => .none (h.opendir path w), fun dir w _ => .none (h.closedir dir w),
    fun dir slot w _ => .none (h.readdir dir slot w), fun path w _ => .none (h.mkdir path w)⟩

variable (alloc : Nat → σ → Bool × σ) (lf : Lfs σ) (p : Ptr)

variable {alloc p}

theorem live_of_moved {h h' : Heap σ} {takes : Multiset Nat} {drop : Option Nat}
    (m : Moved h takes drop h') (hp : p ∈ h.live) (hdrop : drop ≠ some p) : p ∈ h'.live :=
  (m.mem_iff (h.fresh p hp) hdrop).mpr hp

theorem malloc_live {n : Nat} {w w₁ : Logged LfsEvent (Heap σ)} {r : Option Ptr}
    (h : (heapLibc alloc).lift.malloc n w = (r, w₁)) (hp : p ∈ w.sys.live) :
    w₁.log = w.log ∧ p ∈ w₁.sys.live := by
  obtain ⟨hr, hw₁⟩ := Prod.mk.inj h
  have hheap : (heapLibc alloc).malloc n w.sys = (r, w₁.sys) := Prod.ext hr (congrArg Logged.sys hw₁)
  refine ⟨(congrArg Logged.log hw₁).symm, ?_⟩
  cases r with
  | none => exact live_of_moved (malloc_none_moved hheap (.refl w.sys)) hp (fun h => by cases h)
  | some q => exact live_of_moved (malloc_some_moved hheap (.refl w.sys)) hp (fun h => by cases h)

theorem isLive_some {h : Heap σ} (hp : p ∈ h.live) : isLive h (some p) = true := decide_eq_true hp

variable (alloc p)

theorem vfsLfs_uses : Uses (vfsLfs (heapLibc alloc).lift lf.watched (some p)) p where
  open_ path flags w hp := by
    simp only [vfsLfs, lfsOpen]
    rcases e : (heapLibc alloc).lift.malloc sizeofLfsFile w with ⟨_ | file, w₁⟩
    · exact .none (malloc_live e hp).1
    · obtain ⟨hlog, hlive⟩ := malloc_live e hp
      rw [← hlog]
      dsimp only
      split <;> exact .one (isLive_some hlive) rfl
  close fd w hp := by
    cases fd with
    | none => exact .none rfl
    | some file =>
      simp only [vfsLfs, lfsClose]
      split <;> exact .one (isLive_some hp) rfl
  read fd buf n w hp := by
    cases fd with
    | none => exact .none rfl
    | some file =>
      simp only [vfsLfs, lfsRead]
      split <;> rename_i e <;> exact .one (isLive_some hp) (congrArg (·.2.log) e).symm
  write fd buf n w hp := by
    cases fd with
    | none => exact .none rfl
    | some file =>
      simp only [vfsLfs, lfsWrite]
      split <;> rename_i e <;> exact .one (isLive_some hp) (congrArg (·.2.log) e).symm
  opendir path w hp := by
    simp only [vfsLfs, lfsOpendir]
    rcases e : (heapLibc alloc).lift.malloc sizeofLfsDir w with ⟨_ | dir, w₁⟩
    · exact .none (malloc_live e hp).1
    · obtain ⟨hlog, hlive⟩ := malloc_live e hp
      rw [← hlog]
      dsimp only
      split <;> exact .one (isLive_some hlive) rfl
  closedir dir w hp := by
    cases dir with
    | none => exact .none rfl
    | some lfsDir =>
      simp only [vfsLfs, lfsClosedir]
      split <;> exact .one (isLive_some hp) rfl
  readdir dir slot w hp := by
    cases dir with
    | none => exact .none rfl
    | some lfsDir =>
      simp only [vfsLfs, lfsReaddir]
      split
      · exact .one (isLive_some hp) rfl
      · split
        · exact .one (isLive_some hp) rfl
        · split <;> exact .one (isLive_some hp) rfl
  mkdir path w hp := by
    simp only [vfsLfs, lfsMkdir]
    split <;> exact .one (isLive_some hp) rfl

theorem vfsNative_uses (px : Posix σ) (contextPath : CString) :
    Uses (vfsNative (heapLibc alloc).lift px.onHeap.lift contextPath) p :=
  .of_keeps (vfsNative_keeps (heapLibc alloc).lift_keeps px.onHeap.lift_keeps contextPath) p

end Uses

section Walk

variable {σ φ δ φ' δ' : Type}

/-- A back end over the recording littlefs, with the one it is over the heap alone. -/
structure Watches (v : Vfs (Logged LfsEvent (Heap σ)) φ δ) (v₀ : Vfs (Heap σ) φ δ) (fp : Footprint φ δ)
    (p : Ptr) : Prop where
  hom : VfsHom Logged.sys v v₀
  moves : VfsMoves v₀ fp
  uses : Uses v p

structure Spares (p : Ptr) (s s₁ : WalkState (Logged LfsEvent (Heap σ))) : Prop where
  live : p ∈ s₁.sys.sys.live
  used : TracedRun Life.Step (.mounted p) (.mounted p) s s₁

variable {v : Vfs (Logged LfsEvent (Heap σ)) φ δ} {v₀ : Vfs (Heap σ) φ δ} {fp : Footprint φ δ}
  {target : Vfs (Logged LfsEvent (Heap σ)) φ' δ'} {target₀ : Vfs (Heap σ) φ' δ'} {fp' : Footprint φ' δ'}
  {alloc : Nat → σ → Bool × σ} {p : Ptr} {s s₁ s₂ : WalkState (Logged LfsEvent (Heap σ))} {r : Int}

theorem Spares.refl (hp : p ∈ s.sys.sys.live) : Spares p s s := ⟨hp, .silent rfl⟩

theorem Spares.trans (h : Spares p s s₁) (h' : Spares p s₁ s₂) : Spares p s s₂ :=
  ⟨h'.live, h.used.trans h'.used⟩

theorem Spares.of_call {α : Type} {r : α} {result : α × Logged LfsEvent (Heap σ)} {result₀ : α × Heap σ}
    {takes : Multiset Nat} {drop : Option Nat} (hhom : result₀ = result.map id Logged.sys)
    (m : Moved s.sys.sys takes drop result₀.2) (hused : UsedIn p s.sys.log result.2.log)
    (h : result = (r, s₁.sys)) (hp : p ∈ s.sys.sys.live) (hdrop : drop ≠ some p) : Spares p s s₁ := by
  subst hhom
  rw [h] at m hused
  exact ⟨live_of_moved m hp hdrop, hused⟩

theorem ne_of_above {h h' : Heap σ} {takes : Multiset Nat} {drop : Option Nat} (m : Moved h takes drop h')
    (hp : p ∈ h.live) {q : Ptr} (hq : q ∈ takes) : q ≠ p := by
  have hlt : p < h.next := h.fresh p hp
  have hle : h.next ≤ q := m.above q hq
  rintro rfl
  exact absurd hlt (Nat.not_lt.mpr hle)

theorem openFile_spares (hv : Watches v v₀ fp p) (hp : p ∈ s.sys.sys.live) {path : CString} {flags : Nat}
    {fd : Option φ} (h : s.openFile v path flags = (fd, s₁)) :
    Spares p s s₁ ∧ ∀ file, fd = some file → fp.file file ≠ p := by
  have m := hv.moves.open_ path flags s.sys.sys
  have hcall : v₀.open_ path flags s.sys.sys = (fd, s₁.sys.sys) := by
    rw [hv.hom.open_, openFile_sys h]
    rfl
  rw [hcall] at m
  have hused := hv.uses.open_ path flags s.sys hp
  rw [openFile_sys h] at hused
  refine ⟨⟨live_of_moved m hp (fun h => by cases h), hused⟩, ?_⟩
  rintro file rfl
  exact ne_of_above m hp (Multiset.mem_singleton_self _)

theorem closeFile_spares (hv : Watches v v₀ fp p) (hp : p ∈ s.sys.sys.live) {file : φ}
    (hfile : fp.file file ≠ p) : Spares p s (s.closeFile v (some file)).2 := by
  have m := hv.moves.close (some file) s.sys.sys
  have hused := hv.uses.close (some file) s.sys hp
  refine .of_call (hv.hom.close _ _) m hused rfl hp fun hdrop => ?_
  simp only [VfsCall.drop] at hdrop
  split at hdrop
  · exact hfile (Option.some.inj hdrop)
  · cases hdrop

theorem readBuffer_spares (hv : Watches v v₀ fp p) (hp : p ∈ s.sys.sys.live) {fd : Option φ} {rb : Int}
    (h : s.readBuffer v fd = (rb, s₁)) : Spares p s s₁ := by
  have m := hv.moves.read fd s.mBuffer bufferSize s.sys.sys
  have hused := hv.uses.read fd s.mBuffer bufferSize s.sys hp
  exact .of_call (hv.hom.read _ _ _ _) m hused (readBuffer_sys h) hp (fun h => by cases h)

theorem writeBuffer_spares (hv : Watches v v₀ fp p) (hp : p ∈ s.sys.sys.live) {fd : Option φ} {rb wb : Int}
    (h : s.writeBuffer v fd rb = (wb, s₁)) : Spares p s s₁ := by
  have m := hv.moves.write fd s.mBuffer rb.toNat s.sys.sys
  have hused := hv.uses.write fd s.mBuffer rb.toNat s.sys hp
  exact .of_call (hv.hom.write _ _ _ _) m hused (writeBuffer_sys h) hp (fun h => by cases h)

theorem openDir_spares (hv : Watches v v₀ fp p) (hp : p ∈ s.sys.sys.live) {path : CString}
    {dir : Option δ} (h : s.openDir v path = (dir, s₁)) :
    Spares p s s₁ ∧ ∀ d, dir = some d → p ∉ fp.dir d := by
  have m := hv.moves.opendir path s.sys.sys
  have hcall : v₀.opendir path s.sys.sys = (dir, s₁.sys.sys) := by
    rw [hv.hom.opendir, openDir_sys h]
    rfl
  rw [hcall] at m
  have hused := hv.uses.opendir path s.sys hp
  rw [openDir_sys h] at hused
  refine ⟨⟨live_of_moved m hp (fun h => by cases h), hused⟩, ?_⟩
  rintro d rfl hmem
  exact ne_of_above m hp hmem rfl

theorem closeDir_spares (hv : Watches v v₀ fp p) (hp : p ∈ s.sys.sys.live) {d : δ} (hd : p ∉ fp.dir d) :
    Spares p s (s.closeDir v (some d)).2 := by
  have m := hv.moves.closedir (some d) s.sys.sys
  have hused := hv.uses.closedir (some d) s.sys hp
  exact .of_call (hv.hom.closedir _ _) m hused rfl hp fun hdrop => hd (fp.mem d _ p hdrop)

theorem readDir_spares (hv : Watches v v₀ fp p) (hp : p ∈ s.sys.sys.live) {dir : Option δ} {found : Bool}
    (h : s.readDir v dir = (found, s₁)) : Spares p s s₁ := by
  have m := hv.moves.readdir dir s.dirent s.sys.sys
  have hused := hv.uses.readdir dir s.dirent s.sys hp
  exact .of_call (hv.hom.readdir _ _ _) m hused (readDir_sys h) hp (fun h => by cases h)

theorem makeDir_spares (hv : Watches v v₀ fp p) (hp : p ∈ s.sys.sys.live) {path : CString} {err : Int}
    (h : s.makeDir v path = (err, s₁)) : Spares p s s₁ := by
  have m := hv.moves.mkdir path s.sys.sys
  have hused := hv.uses.mkdir path s.sys hp
  exact .of_call (hv.hom.mkdir _ _) m hused (makeDir_sys h) hp (fun h => by cases h)

theorem entryPath_spares (hp : p ∈ s.sys.sys.live) {dir : CString} {path : Option HeapString}
    (h : s.entryPath (heapLibc alloc).lift dir = (path, s₁)) :
    Spares p s s₁ ∧ ∀ str, path = some str → str.ptr ≠ p := by
  have hlog : s₁.sys.log = s.sys.log := entryPath_keeps (heapLibc alloc).lift_keeps h
  have hcall : appendDirAlloc (heapLibc alloc) dir (cstr s.dirent.name) s.sys.sys = (path, s₁.sys.sys) := by
    have hmap := appendDirAlloc_map (heapLibc alloc).lift_hom dir (cstr s.dirent.name) s.sys
    rw [(entryPath_sys h).1] at hmap
    exact hmap
  cases path with
  | none =>
    have m := append_none_moved hcall (.refl s.sys.sys)
    exact ⟨⟨live_of_moved m hp (fun h => by cases h), .silent hlog⟩, fun _ h => by cases h⟩
  | some str =>
    have m := append_some_moved hcall (.refl s.sys.sys)
    refine ⟨⟨live_of_moved m hp (fun h => by cases h), .silent hlog⟩, ?_⟩
    rintro _ ⟨⟩
    exact ne_of_above m hp (Multiset.mem_cons_self _ _)

variable (alloc) in
theorem freePath_spares (hp : p ∈ s.sys.sys.live) {path : Option HeapString}
    (hpath : ∀ str, path = some str → str.ptr ≠ p) : Spares p s (s.freePath (heapLibc alloc).lift path) := by
  refine ⟨?_, .silent rfl⟩
  cases path with
  | none => exact hp
  | some str =>
    have hne : some str.ptr ≠ some p := fun h => hpath str rfl (Option.some.inj h)
    exact live_of_moved ((Moved.refl s.sys.sys).give str.ptr) hp hne

theorem CopyRun.spares (hv : Watches v v₀ fp p) (ht : Watches target target₀ fp' p) {inn : Option φ}
    {out : Option φ'} (h : CopyRun v target inn out s r s₁) (hp : p ∈ s.sys.sys.live) : Spares p s s₁ := by
  induction h with
  | readFail hr _ => exact readBuffer_spares hv hp hr
  | writeFail hr _ hw _ =>
    have hread := readBuffer_spares hv hp hr
    exact hread.trans (writeBuffer_spares ht hread.live hw)
  | last hr _ hw _ =>
    have hread := readBuffer_spares hv hp hr
    exact hread.trans (writeBuffer_spares ht hread.live hw)
  | more hr _ hw _ _ ih =>
    have hread := readBuffer_spares hv hp hr
    have hwrite := hread.trans (writeBuffer_spares ht hread.live hw)
    exact hwrite.trans (ih hwrite.live)

theorem FileRun.spares (hv : Watches v v₀ fp p) (ht : Watches target target₀ fp' p) {path : CString}
    (h : FileRun v target path s r s₁) (hp : p ∈ s.sys.sys.live) : Spares p s s₁ := by
  cases h with
  | outFail ho => exact (openFile_spares ht hp ho).1
  | inFail ho hi =>
    obtain ⟨hopen, hout⟩ := openFile_spares ht hp ho
    obtain ⟨hopen', _⟩ := openFile_spares hv hopen.live hi
    have hfiles := hopen.trans hopen'
    exact hfiles.trans (closeFile_spares ht hfiles.live (hout _ rfl))
  | copied ho hi hc =>
    obtain ⟨hopen, hout⟩ := openFile_spares ht hp ho
    obtain ⟨hopen', hinn⟩ := openFile_spares hv hopen.live hi
    have hcopy := (hopen.trans hopen').trans (hc.spares hv ht hopen'.live)
    have hclose := hcopy.trans (closeFile_spares hv hcopy.live (hinn _ rfl))
    exact hclose.trans (closeFile_spares ht hclose.live (hout _ rfl))

def Task.Avoids (fp : Footprint φ δ) (p : Ptr) : Task δ → Prop
  | .entries _ dir => p ∉ fp.dir dir
  | .tree _ | .entry _ => True

/-- By induction on the run: a walk uses the `lfs_t` and does not free it. -/
theorem WalkRun.spares (hv : Watches v v₀ fp p) (ht : Watches target target₀ fp' p) {task : Task δ}
    (h : WalkRun (heapLibc alloc).lift v target task s r s₁) (hp : p ∈ s.sys.sys.live)
    (htask : task.Avoids fp p) : Spares p s s₁ := by
  have hnone : ∀ {str : HeapString}, none = some str → str.ptr ≠ p := fun h => by cases h
  induction h with
  | mkdirFail hm _ =>
    have hmkdir := makeDir_spares ht hp hm
    exact hmkdir.trans (freePath_spares alloc hmkdir.live fun _ => hnone)
  | opendirFail hm ho =>
    have hmkdir := makeDir_spares ht hp hm
    have hopen := hmkdir.trans (openDir_spares hv hmkdir.live ho).1
    exact hopen.trans (freePath_spares alloc hopen.live fun _ => hnone)
  | opened hm ho _ ih =>
    have hmkdir := makeDir_spares ht hp hm
    obtain ⟨hopen, hdir⟩ := openDir_spares hv hmkdir.live ho
    have hloop := (hmkdir.trans hopen).trans (ih hopen.live (hdir _ rfl))
    exact hloop.trans (closeDir_spares hv hloop.live (hdir _ rfl))
  | readdirFail hd =>
    have hread := readDir_spares hv hp hd
    exact hread.trans (freePath_spares alloc hread.live fun _ => hnone)
  | finished hd _ =>
    have hread := readDir_spares hv hp hd
    exact hread.trans (freePath_spares alloc hread.live fun _ => hnone)
  | allocFail hd _ ha =>
    have hread := readDir_spares hv hp hd
    have hentry := hread.trans (entryPath_spares hread.live ha).1
    exact hentry.trans (freePath_spares alloc hentry.live fun _ => hnone)
  | entryFail hd _ ha _ _ ih =>
    have hread := readDir_spares hv hp hd
    obtain ⟨halloc, hpath⟩ := entryPath_spares hread.live ha
    have hentry := (hread.trans halloc).trans (ih halloc.live trivial)
    exact hentry.trans (freePath_spares alloc hentry.live fun str heq => hpath str heq)
  | next hd _ ha _ _ ihe ihr =>
    have hread := readDir_spares hv hp hd
    obtain ⟨halloc, hpath⟩ := entryPath_spares hread.live ha
    have hentry := (hread.trans halloc).trans (ihe halloc.live trivial)
    have hfree := hentry.trans (freePath_spares alloc hentry.live fun str heq => hpath str heq)
    exact hfree.trans (ihr hfree.live htask)
  | file _ hf => exact hf.spares hv ht hp
  | subtree _ _ _ _ ih => exact ih hp trivial
  | skipped => exact .refl hp

end Walk

/-! ## `main` -/

/-- No call goes through a NULL pointer, and the calls of littlefs are those of one life. -/
structure Lifecycle (f : Finished) (events : List LfsEvent) : Prop where
  notNull : f.exit ≠ .crash
  life : ∃ st, Run Life.Step .unset events st

/-- One life: a `mount` that fails; or one that returns 0, then uses, and at most one `unmount`. -/
theorem Life.events_of_run {events : List LfsEvent} {st : Life} (h : Run Life.Step .unset events st) :
    events = [] ∨ (∃ p err, err ≠ 0 ∧ events = [.mount p true err]) ∨
      ∃ p uses, (∀ e ∈ uses, e = .use (some p) true) ∧ (events = .mount p true 0 :: uses ∨
        ∃ err, events = .mount p true 0 :: uses ++ [.unmount (some p) true err]) := by
  have hended : ∀ {es st st'}, Run Life.Step st es st' → (st = .failed ∨ st = .released) → es = [] := by
    intro es st st' h hst
    cases h with
    | nil => rfl
    | cons hstep _ => rcases hst with rfl | rfl <;> cases hstep
  have hmounted : ∀ {es st st'}, Run Life.Step st es st' → ∀ p, st = .mounted p →
      ∃ uses, (∀ e ∈ uses, e = .use (some p) true) ∧
        (es = uses ∨ ∃ err, es = uses ++ [.unmount (some p) true err]) := by
    intro es st st' h
    induction h with
    | nil => exact fun p _ => ⟨[], fun _ h => absurd h List.not_mem_nil, .inl rfl⟩
    | cons hstep hrest ih =>
      rintro p rfl
      cases hstep with
      | use =>
        obtain ⟨uses, huses, hes⟩ := ih p rfl
        refine ⟨.use (some p) true :: uses, ?_, ?_⟩
        · rintro e he
          rcases List.mem_cons.mp he with rfl | he
          · rfl
          · exact huses e he
        · rcases hes with rfl | ⟨err, rfl⟩
          · exact .inl rfl
          · exact .inr ⟨err, rfl⟩
      | @unmount _ err =>
        rw [hended hrest (.inr rfl)]
        exact ⟨[], fun _ h => absurd h List.not_mem_nil, .inr ⟨err, rfl⟩⟩
  cases h with
  | nil => exact .inl rfl
  | cons hstep hrest =>
    cases hstep with
    | @mount p =>
      obtain ⟨uses, huses, hes⟩ := hmounted hrest p rfl
      refine .inr (.inr ⟨p, uses, huses, ?_⟩)
      rcases hes with rfl | ⟨err, rfl⟩
      · exact .inl rfl
      · exact .inr ⟨err, rfl⟩
    | @mountFail p err herr =>
      rw [hended hrest (.inl rfl)]
      exact .inr (.inl ⟨p, err, herr, rfl⟩)

section Main

variable {σ : Type}

/-- The world in which `vfs_lfs_get` returns the vfs, if it does: the image opens and, to be created,
can be filled and formatted. -/
def Request.gets (request : Request) (stdio : Stdio σ) (lf : Lfs σ) (w : σ) : Option σ :=
  let (opened, w) := stdio.fopen request.image request.mode w
  if !opened then none
  else if request.create then
    let (filled, w) := fillLoop stdio (prefillSize request.config).toNat w
    if !filled then none
    else
      let (err, w) := lf.format request.config w
      if err ≠ 0 then none else some w
  else some w

/-- An image to be extracted opens. When `vfs_lfs_get` returns the vfs, there is memory for the `lfs_t`,
at the address `lfs`, and `lfs_mount` returns 0. -/
structure Request.Mounts (request : Request) (alloc : Nat → σ → Bool × σ) (stdio : Stdio σ) (lf : Lfs σ)
    (lfs : Ptr) (w : σ) : Prop where
  opens : request.create = false → (stdio.fopen request.image request.mode w).1 = true
  mounts : ∀ w₁, request.gets stdio lf w = some w₁ → (alloc sizeofLfs w₁).1 = true ∧
    (lf.mount lfs request.config (alloc sizeofLfs w₁).2).1 = 0

theorem fillLoop_watched (stdio : Stdio σ) (n : Nat) (w : Logged LfsEvent (Heap σ)) :
    fillLoop stdio.onHeap.lift n w = ((fillLoop stdio n w.sys.sys).1,
      ⟨w.sys.withSys (fillLoop stdio n w.sys.sys).2, w.log⟩) := by
  induction n generalizing w with
  | zero => rfl
  | succ n ih =>
    obtain ⟨c, w₁, hput⟩ : ∃ c w₁, stdio.fputc 0xff w.sys.sys = (c, w₁) := ⟨_, _, rfl⟩
    have hput' : (stdio.onHeap.lift : Stdio (Logged LfsEvent (Heap σ))).fputc 0xff w =
        (c, ⟨w.sys.withSys w₁, w.log⟩) := by
      rw [← Prod.mk.inj hput |>.1, ← Prod.mk.inj hput |>.2]; rfl
    simp only [fillLoop, hput, hput']
    split
    · rfl
    · rw [ih]; rfl

theorem vfsLfsGet_watched (stdio : Stdio σ) (lf : Lfs σ) (request : Request)
    (w : Logged LfsEvent (Heap σ)) :
    ∃ sys, vfsLfsGet stdio.onHeap.lift lf.watched request.image request.create request.nameMax
        request.ioSize request.blockSize request.blockCount w =
      ((request.gets stdio lf w.sys.sys).map fun _ => request.config, ⟨w.sys.withSys sys, w.log⟩) ∧
      ∀ w₁, request.gets stdio lf w.sys.sys = some w₁ → sys = w₁ := by
  obtain ⟨opened, w₁, hopen⟩ :
      ∃ opened w₁, stdio.fopen request.image request.mode w.sys.sys = (opened, w₁) := ⟨_, _, rfl⟩
  obtain ⟨filled, w₂, hfill⟩ : ∃ filled w₂,
      fillLoop stdio (prefillSize request.config).toNat w₁ = (filled, w₂) := ⟨_, _, rfl⟩
  obtain ⟨err, w₃, hformat⟩ : ∃ err w₃, lf.format request.config w₂ = (err, w₃) := ⟨_, _, rfl⟩
  have hopen' : (stdio.onHeap.lift : Stdio (Logged LfsEvent (Heap σ))).fopen request.image request.mode w =
      (opened, ⟨w.sys.withSys w₁, w.log⟩) := by
    rw [← Prod.mk.inj hopen |>.1, ← Prod.mk.inj hopen |>.2]; rfl
  have hfill' : fillLoop stdio.onHeap.lift (prefillSize request.config).toNat
      (⟨w.sys.withSys w₁, w.log⟩ : Logged LfsEvent (Heap σ)) =
        (filled, ⟨w.sys.withSys w₂, w.log⟩) := by
    rw [fillLoop_watched, ← Prod.mk.inj hfill |>.1, ← Prod.mk.inj hfill |>.2]; rfl
  have hformat' : lf.watched.format request.config ⟨w.sys.withSys w₂, w.log⟩ =
      (err, ⟨w.sys.withSys w₃, w.log⟩) := by
    rw [← Prod.mk.inj hformat |>.1, ← Prod.mk.inj hformat |>.2]; rfl
  have hmode : (if request.create then FopenMode.wPlusB else .rb) = request.mode := rfl
  have hconfig : configure request.nameMax request.ioSize request.blockSize request.blockCount
      mLfsConfig = request.config := rfl
  simp only [vfsLfsGet, Request.gets, hmode, hconfig, hopen, hopen', hfill, hfill', hformat, hformat']
  cases opened with
  | false => exact ⟨w₁, rfl, fun _ h => by cases h⟩
  | true =>
    simp only [Bool.not_true, Bool.false_eq_true, if_false]
    by_cases hcreate : request.create = true
    · rw [if_pos hcreate, if_pos hcreate]
      cases filled with
      | false => exact ⟨w₂, rfl, fun _ h => by cases h⟩
      | true =>
        simp only [Bool.not_true, Bool.false_eq_true, if_false]
        by_cases herr : err ≠ 0
        · rw [if_pos herr, if_pos herr]
          exact ⟨w₃, rfl, fun _ h => by cases h⟩
        · rw [if_neg herr, if_neg herr]
          exact ⟨w₃, rfl, fun _ h => Option.some.inj h⟩
    · rw [if_neg hcreate, if_neg hcreate]
      exact ⟨w₁, rfl, fun _ h => Option.some.inj h⟩

variable (alloc : Nat → σ → Bool × σ) (stdio : Stdio σ) (lf : Lfs σ) (px : Posix σ)

theorem lfsMount_watched (c : LfsConfig) (h : Heap σ) (log : List LfsEvent) :
    ∃ err lfs w', lfsMount (watchedSys alloc stdio lf px).libc (watchedSys alloc stdio lf px).lf c
        ⟨h, log⟩ = ((err, lfs), w') ∧
      (err = 0 ∧ (alloc sizeofLfs h.sys).1 = true ∧
          (lf.mount h.next c (alloc sizeofLfs h.sys).2).1 = 0 ∧ lfs = some h.next ∧
          h.next ∈ w'.sys.live ∧ w'.log = log ++ [.mount h.next true 0] ∨
        err ≠ 0 ∧ ¬((alloc sizeofLfs h.sys).1 = true ∧
          (lf.mount h.next c (alloc sizeofLfs h.sys).2).1 = 0) ∧
          (lfs = none ∧ w'.log = log ∨ ∃ err', err' ≠ 0 ∧ w'.log = log ++ [.mount h.next true err'])) := by
  obtain ⟨ok, w₁, halloc⟩ : ∃ ok w₁, alloc sizeofLfs h.sys = (ok, w₁) := ⟨_, _, rfl⟩
  obtain ⟨err, w₂, hmount⟩ : ∃ err w₂, lf.mount h.next c w₁ = (err, w₂) := ⟨_, _, rfl⟩
  have hmalloc : (watchedSys alloc stdio lf px).libc.malloc sizeofLfs ⟨h, log⟩ =
      if ok then (some h.next, ⟨(h.withSys w₁).take, log⟩) else (none, ⟨h.withSys w₁, log⟩) := by
    have hlift : (watchedSys alloc stdio lf px).libc.malloc sizeofLfs ⟨h, log⟩ =
        (((heapLibc alloc).malloc sizeofLfs h).1, ⟨((heapLibc alloc).malloc sizeofLfs h).2, log⟩) := rfl
    rw [hlift]
    simp only [heapLibc, halloc]
    cases ok <;> rfl
  have hlive : isLive (h.withSys w₁).take (some h.next) = true :=
    isLive_some (Finset.mem_insert_self _ _)
  have hmount' : (watchedSys alloc stdio lf px).lf.mount h.next c ⟨(h.withSys w₁).take, log⟩ =
      (err, ⟨(h.withSys w₁).take.withSys w₂, log ++ [.mount h.next true err]⟩) := by
    have hlift : (watchedSys alloc stdio lf px).lf.mount h.next c ⟨(h.withSys w₁).take, log⟩ =
        ((lf.mount h.next c w₁).1, ⟨(h.withSys w₁).take.withSys (lf.mount h.next c w₁).2,
          log ++ [.mount h.next (isLive (h.withSys w₁).take (some h.next)) (lf.mount h.next c w₁).1]⟩) := rfl
    rw [hlift, hlive, hmount]
  simp only [lfsMount, hmalloc, halloc]
  cases ok with
  | false => exact ⟨_, _, _, rfl, .inr ⟨by decide, fun h => Bool.false_ne_true h.1, .inl ⟨rfl, rfl⟩⟩⟩
  | true =>
    simp only [if_true, hmount', hmount]
    by_cases herr : err = 0
    · subst herr
      exact ⟨_, _, _, rfl, .inl ⟨rfl, trivial, rfl, rfl, Finset.mem_insert_self _ _, rfl⟩⟩
    · rw [if_neg herr]
      exact ⟨_, _, _, rfl, .inr ⟨by decide, fun h => herr h.2, .inr ⟨err, herr, rfl⟩⟩⟩

theorem lfsUnmount_watched (lfs : Option Ptr) (w : Logged LfsEvent (Heap σ)) :
    ∃ err, (lfsUnmount (watchedSys alloc stdio lf px).libc (watchedSys alloc stdio lf px).lf lfs w).2.log =
      w.log ++ [.unmount lfs (isLive w.sys lfs) err] := by
  simp only [lfsUnmount]
  split
  · cases lfs <;> exact ⟨_, rfl⟩
  · exact ⟨_, rfl⟩

theorem transfer_watched {fuel : Nat} {request : Request} {p : Ptr} {w : Logged LfsEvent (Heap σ)}
    {r : Int} {s : WalkState (Logged LfsEvent (Heap σ))} (hp : p ∈ w.sys.live)
    (h : transfer (watchedSys alloc stdio lf px) fuel request (some p) w = some (r, s)) :
    p ∈ s.sys.sys.live ∧ UsedIn p w.log s.sys.log := by
  have hl : LibcHom Logged.sys ((heapLibc alloc).lift : Libc (Logged LfsEvent (Heap σ)))
      (heapLibc alloc) := (heapLibc alloc).lift_hom
  have hlfs : Watches (vfsLfs (heapLibc alloc).lift lf.watched (some p))
      (vfsLfs (heapLibc alloc) lf.onHeap (some p)) lfsFootprint p :=
    ⟨vfsLfs_hom hl lf.watched_hom _, vfsLfs_moves alloc lf _, vfsLfs_uses alloc lf p⟩
  have hnative : Watches (vfsNative (heapLibc alloc).lift px.onHeap.lift request.directory)
      (vfsNative (heapLibc alloc) px.onHeap request.directory) nativeFootprint p :=
    ⟨vfsNative_hom hl px.onHeap.lift_hom _, vfsNative_moves alloc px _, vfsNative_uses alloc p px _⟩
  simp only [transfer] at h
  split at h
  · have hspares := (traversal_run h).spares hnative hlfs hp trivial
    exact ⟨hspares.live, hspares.used⟩
  · have hspares := (traversal_run h).spares hlfs hnative hp trivial
    exact ⟨hspares.live, hspares.used⟩

theorem Request.fopen_of_gets_none {request : Request} {w : σ} (hextract : request.create = false)
    (h : request.gets stdio lf w = none) : (stdio.fopen request.image request.mode w).1 = false := by
  obtain ⟨opened, w₁, hopen⟩ :
      ∃ opened w₁, stdio.fopen request.image request.mode w = (opened, w₁) := ⟨_, _, rfl⟩
  simp only [Request.gets, hopen, hextract, Bool.false_eq_true, if_false] at h
  rw [hopen]
  cases opened with
  | false => rfl
  | true => cases h

theorem Request.mounts_iff {request : Request} {lfs : Ptr} {w w₁ : σ} (h : request.gets stdio lf w = some w₁) :
    request.Mounts alloc stdio lf lfs w ↔ (alloc sizeofLfs w₁).1 = true ∧
      (lf.mount lfs request.config (alloc sizeofLfs w₁).2).1 = 0 := by
  constructor
  · exact fun hmounts => hmounts.mounts w₁ h
  · refine fun hboth => ⟨fun _ => ?_, fun w₂ hw₂ => ?_⟩
    · rw [Request.gets] at h
      by_contra hfail
      simp [hfail] at h
    · cases h.symm.trans hw₂
      exact hboth

theorem Life.run_released {p : Ptr} {es : List LfsEvent} (h : Run Life.Step (.mounted p) es (.mounted p))
    (err : Int) : Run Life.Step .unset ([.mount p true 0] ++ es ++ [.unmount (some p) true err]) .released :=
  .append (.cons .mount h) (.single .unmount)

/-- No `unmount` comes first, or after a `mount` that failed. -/
theorem Life.not_run_failed {log : List LfsEvent} {lfs : Option Ptr} {live : Bool} {err : Int} {st : Life}
    (hlog : log = [] ∨ ∃ p err', err' ≠ 0 ∧ log = [.mount p true err']) :
    ¬Run Life.Step .unset (log ++ [.unmount lfs live err]) st := by
  rintro hrun
  obtain rfl | ⟨p, err', hne, rfl⟩ := hlog
  · cases hrun with
    | cons hstep _ => cases hstep
  · cases hrun with
    | cons hstep hrest =>
      cases hstep with
      | mount => exact hne rfl
      | mountFail _ =>
        cases hrest with
        | cons hstep _ => cases hstep

/-- A run of `main` is one life of the `lfs_t`, and no call goes through NULL, if and only if the command
line is refused or the image of an extraction opens, and the `mount` after `vfs_lfs_get` succeeds. -/
theorem lifecycle_iff (args : List CString) (heap : Heap σ) {fuel : Nat} {f : Finished}
    {w' : Logged LfsEvent (Heap σ)}
    (h : main (watchedSys alloc stdio lf px) fuel args ⟨heap, []⟩ = some (f, w')) :
    Lifecycle f w'.log ↔ ∀ request, parseArgs args = .ok request →
      request.Mounts alloc stdio lf heap.next heap.sys := by
  cases hparse : parseArgs args with
  | error stop =>
    refine ⟨fun _ request hrequest => ?_, fun _ => ?_⟩
    · cases hrequest
    · rw [main, setup, hparse] at h
      cases stop <;> cases h <;> exact ⟨fun hcrash => Exit.noConfusion hcrash, .unset, .nil⟩
  | ok request =>
    have hrequest : (∀ request', (Except.ok request : Except Stop Request) = .ok request' →
        request'.Mounts alloc stdio lf heap.next heap.sys) ↔
          request.Mounts alloc stdio lf heap.next heap.sys :=
      ⟨fun h => h request rfl, fun h _ heq => Except.ok.inj heq ▸ h⟩
    rw [hrequest]
    obtain ⟨world, hget, hworld⟩ := vfsLfsGet_watched stdio lf request ⟨heap, []⟩
    have hget' : vfsLfsGet (watchedSys alloc stdio lf px).stdio (watchedSys alloc stdio lf px).lf
        request.image request.create request.nameMax request.ioSize request.blockSize
        request.blockCount ⟨heap, []⟩ = ((request.gets stdio lf heap.sys).map fun _ => request.config,
          ⟨heap.withSys world, []⟩) := hget
    rw [main, setup, hparse] at h
    simp only [hget'] at h
    cases hgets : request.gets stdio lf heap.sys with
    | none =>
      rw [hgets] at h
      simp only [Option.map_none] at h
      by_cases hcreate : request.create = true
      · rw [if_pos hcreate] at h
        cases h
        refine ⟨fun _ => ⟨fun hextract => ?_, fun w₁ hw₁ => ?_⟩, fun _ => ⟨?_, .unset, .nil⟩⟩
        · cases hcreate.symm.trans hextract
        · cases hgets.symm.trans hw₁
        · intro hcrash
          cases hcrash
      · rw [if_neg hcreate] at h
        cases h
        have hextract : request.create = false := by simpa using hcreate
        constructor
        · exact fun hlife => absurd rfl hlife.notNull
        · intro hmounts
          cases (Request.fopen_of_gets_none stdio lf hextract hgets).symm.trans (hmounts.opens hextract)
    | some w₁ =>
      obtain rfl := hworld w₁ hgets
      rw [Request.mounts_iff alloc stdio lf hgets]
      rw [hgets] at h
      simp only [Option.map_some] at h
      have hnext : (heap.withSys world).next = heap.next := rfl
      have hsys : (heap.withSys world).sys = world := rfl
      have hwatched := lfsMount_watched alloc stdio lf px request.config (heap.withSys world) []
      rw [hnext, hsys] at hwatched
      obtain ⟨err, lfs, w₂, hmount, hcases⟩ := hwatched
      rw [hmount] at h
      rcases hcases with ⟨rfl, hok, hzero, rfl, hlive, hlog⟩ | ⟨herr, hnot, hlog⟩
      · -- mounted: the walk, and `unmount`
        refine ⟨fun _ => ⟨hok, hzero⟩, fun _ => ?_⟩
        simp only [ne_eq, not_true_eq_false, if_false] at h
        cases htransfer : transfer (watchedSys alloc stdio lf px) fuel request (some heap.next) w₂ with
        | none =>
          rw [htransfer] at h
          cases h
        | some result =>
          obtain ⟨r, s⟩ := result
          rw [htransfer] at h
          obtain ⟨hlive', es, hes, hused⟩ := transfer_watched alloc stdio lf px hlive htransfer
          obtain ⟨err, hunmount⟩ := lfsUnmount_watched alloc stdio lf px (some heap.next) s.sys
          rw [isLive_some hlive', hes, hlog] at hunmount
          cases h
          refine ⟨?_, .released, ?_⟩
          · intro hcrash
            cases hcrash
          have hrun := Life.run_released hused err
          rw [← List.nil_append [LfsEvent.mount heap.next true 0], ← hunmount] at hrun
          exact hrun
      · -- `mount` failed, and `unmount` is called all the same
        refine ⟨fun hlife => ?_, fun hgood => absurd hgood hnot⟩
        rw [if_pos herr] at h
        obtain ⟨err', hunmount⟩ := lfsUnmount_watched alloc stdio lf px lfs w₂
        cases h
        obtain ⟨st, hrun⟩ := hlife.life
        refine absurd (hunmount ▸ hrun) (Life.not_run_failed ?_)
        rcases hlog with ⟨-, hlog⟩ | ⟨err'', hne, hlog⟩
        · exact .inl hlog
        · exact .inr ⟨heap.next, err'', hne, hlog⟩

end Main

/-! ### Extractions of one file -/

def corruptEnv : Env := { calmEnv with image := fun i => ⟨false, false, none, none, i, [], false⟩ }

def missingStdio : Stdio World := { treeStdio with fopen := fun _ _ w => (false, w) }

/-- `-x -i a -d /out`, where `malloc` always succeeds. -/
def watchedExtract (stdio : Stdio World) (env : Env) :
    Option (Finished × Logged LfsEvent (Heap World)) :=
  main (watchedSys (fun _ w => (true, w)) stdio (treeLfs env) (treePosix env)) 8 extractArgs
    ⟨Session.emptyHeap (oneFile aName), []⟩

theorem lifecycle_iff_oneFile :
    ∃ f w', watchedExtract treeStdio calmEnv = some (f, w') ∧
      (Lifecycle f w'.log ↔ ∀ request, parseArgs extractArgs = .ok request →
        request.Mounts (fun _ w => (true, w)) treeStdio (treeLfs calmEnv) 0 (oneFile aName)) := by
  have hreturns : (watchedExtract treeStdio calmEnv).isSome = true := by decide +kernel
  obtain ⟨⟨f, w'⟩, h⟩ := Option.isSome_iff_exists.mp hreturns
  exact ⟨f, w', h, lifecycle_iff _ _ _ _ extractArgs _ h⟩

/-- An `lfs_t` that was freed when it could not be mounted is unmounted; and when the image does not
open, `mount` is called through NULL. -/
theorem not_lifecycle_oneFile :
    (∃ f w', watchedExtract treeStdio corruptEnv = some (f, w') ∧
      w'.log = [.mount 0 true LFS_ERR_CORRUPT, .unmount (some 0) false LFS_ERR_CORRUPT] ∧
      ¬Lifecycle f w'.log) ∧
    ∃ f w', watchedExtract missingStdio calmEnv = some (f, w') ∧ f.exit = .crash ∧
      ¬Lifecycle f w'.log := by
  constructor
  · have hrun : (watchedExtract treeStdio corruptEnv).map (·.2.log) =
        some [.mount 0 true LFS_ERR_CORRUPT, .unmount (some 0) false LFS_ERR_CORRUPT] := by
      decide +kernel
    obtain ⟨⟨f, w'⟩, h, hlog⟩ := Option.map_eq_some_iff.mp hrun
    refine ⟨f, w', h, hlog, fun hlife => ?_⟩
    obtain ⟨st, hevents⟩ := hlife.life
    rw [hlog] at hevents
    rcases Life.events_of_run hevents with hnil | ⟨p, err, _, hone⟩ | ⟨p, uses, _, hmounted | ⟨err, hmounted⟩⟩
    · cases hnil
    · cases hone
    · cases hmounted
    · cases hmounted
  · have hrun : (watchedExtract missingStdio calmEnv).map (·.1.exit) = some .crash := by decide +kernel
    obtain ⟨⟨f, w'⟩, h, hexit⟩ := Option.map_eq_some_iff.mp hrun
    exact ⟨f, w', h, hexit, fun hlife => hlife.notNull hexit⟩

end LfsTool
