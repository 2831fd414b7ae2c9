import LfsTool.ExitStatus

/-!
# LfsTool.ReadOnly

Whether an extraction writes to the image. `vfs_open` turns `O_RDONLY`, which is 0, into the flags 0,
and `lfs_file_opencfg` takes everything but `LFS_O_RDONLY` for a file to be written: it repairs the
file system first, if the global state says that there is something to repair.

* `lfsFileOpencfg`, `lfsFsForceconsistency`: these parts of `lfs.c`, over what they call (`Repair`).
* `ReadOnlyCalls`: what is taken from the rest of littlefs.
* `WalkRun.quiet`: an extraction that finds nothing to repair whenever it opens a file calls neither
  `fs_prog` nor `fs_erase`; `extraction_reads_only` is that for `main`.
-/

namespace LfsTool

open PathSyntax TreeFs WalkState

/-! ## `lfs.c` -/

/-- `lfs_gstate_hasorphans`, of `lfs->gstate.tag` -/
def hasOrphans (tag : UInt32) : Bool := tag &&& 0x3ff ≠ 0

/-- `lfs_gstate_hasmove` -/
def hasMove (tag : UInt32) : Bool := (tag &&& 0x70000000) >>> 20 ≠ 0

/-- The parts of littlefs around a repair. -/
structure Repair (σ : Type) where
  /-- `lfs->gstate.tag` -/
  gstate : σ → UInt32
  /-- `lfs_fs_demove` behind its guard -/
  fixMove : σ → Int × σ
  /-- `lfs_fs_deorphan` behind its guard -/
  fixOrphans : σ → Int × σ
  /-- `lfs_file_opencfg` from the file details on -/
  openFile : Option Ptr → Ptr → CString → Nat → σ → Int × σ

section Littlefs

variable {σ : Type} (rp : Repair σ)

def lfsFsDemove (w : σ) : Int × σ := if !hasMove (rp.gstate w) then (0, w) else rp.fixMove w

def lfsFsDeorphan (w : σ) : Int × σ := if !hasOrphans (rp.gstate w) then (0, w) else rp.fixOrphans w

def lfsFsForceconsistency (w : σ) : Int × σ :=
  let (err, w) := lfsFsDemove rp w
  if err ≠ 0 then (err, w) else lfsFsDeorphan rp w

def lfsFileOpencfg (lfs : Option Ptr) (file : Ptr) (path : CString) (flags : Nat) (w : σ) : Int × σ :=
  if flags &&& 3 ≠ LFS_O_RDONLY then
    let (err, w) := lfsFsForceconsistency rp w
    if err ≠ 0 then (err, w) else rp.openFile lfs file path flags w
  else rp.openFile lfs file path flags w

/-- littlefs with this way to open a file. -/
def Repair.over (lf : Lfs σ) : Lfs σ := { lf with fileOpen := lfsFileOpencfg rp }

/-- There is nothing to repair. -/
def Repair.consistent (w : σ) : Bool := !hasMove (rp.gstate w) && !hasOrphans (rp.gstate w)

variable {rp}

theorem forceconsistency_of_consistent {w : σ} (h : rp.consistent w = true) :
    lfsFsForceconsistency rp w = (0, w) := by
  simp only [Repair.consistent, Bool.and_eq_true] at h
  rw [lfsFsForceconsistency, lfsFsDemove, if_pos h.1]
  simp only [ne_eq, not_true, if_false]
  rw [lfsFsDeorphan, if_pos h.2]

theorem fileOpencfg_of_consistent {w : σ} (h : rp.consistent w = true) (lfs : Option Ptr) (file : Ptr)
    (path : CString) (flags : Nat) :
    lfsFileOpencfg rp lfs file path flags w = rp.openFile lfs file path flags w := by
  rw [lfsFileOpencfg, forceconsistency_of_consistent h]
  simp

end Littlefs

/-- Calls of littlefs that do not program or erase. `writes` counts the calls of `fs_prog` and
`fs_erase`; a file is clean when nothing was written to it since it was opened. -/
structure ReadOnlyCalls {σ : Type} (rp : Repair σ) (lf : Lfs σ) (writes : σ → Nat)
    (clean : σ → Ptr → Prop) : Prop where
  mount : ∀ lfs cfg w, writes (lf.mount lfs cfg w).2 = writes w
  unmount : ∀ lfs w, writes (lf.unmount lfs w).2 = writes w
  dirOpen : ∀ lfs dir path w, writes (lf.dirOpen lfs dir path w).2 = writes w
  dirRead : ∀ lfs dir w, writes (lf.dirRead lfs dir w).2 = writes w
  dirClose : ∀ lfs dir w, writes (lf.dirClose lfs dir w).2 = writes w
  /-- a file that is neither created nor emptied -/
  openFile : ∀ lfs file path w, writes (rp.openFile lfs file path 0 w).2 = writes w ∧
    (0 ≤ (rp.openFile lfs file path 0 w).1 → clean (rp.openFile lfs file path 0 w).2 file)
  fileRead : ∀ lfs file n w, clean w file →
    writes (lf.fileRead lfs file n w).2 = writes w ∧ clean (lf.fileRead lfs file n w).2 file
  fileClose : ∀ lfs file w, clean w file → writes (lf.fileClose lfs file w).2 = writes w

/-- The system leaves the image to littlefs. -/
structure Unrelated {σ : Type} (sys : Sys σ) (writes : σ → Nat) (clean : σ → Ptr → Prop) : Prop where
  libc : LibcKeeps sys.libc fun w => (writes w, clean w)
  px : PosixKeeps sys.px fun w => (writes w, clean w)
  fopen : ∀ image mode w, writes (sys.stdio.fopen image mode w).2 = writes w

section Run

variable {σ : Type} {libc : Libc σ} {px : Posix σ} {rp : Repair σ} {lf : Lfs σ} {lfs : Option Ptr}
  {dir : CString} {writes : σ → Nat} {clean : σ → Ptr → Prop}

/-- What is seen of a recorded world: the writes, the clean files and the record. -/
abbrev seen (writes : σ → Nat) (clean : σ → Ptr → Prop) :
    Logged Bool σ → (Nat × (Ptr → Prop)) × List Bool :=
  Logged.view fun w => (writes w, clean w)

/-- Between two states nothing was written, provided that every file was opened in a consistent
state. -/
def QuietRun (writes : σ → Nat) (s s' : WalkState (Logged Bool σ)) : Prop :=
  ∃ opens, s'.sys.log = s.sys.log ++ opens ∧
    ((∀ consistent ∈ opens, consistent = true) → writes s'.sys.sys = writes s.sys.sys)

variable {s s₁ s₂ : WalkState (Logged Bool σ)}

theorem QuietRun.silent (h : s₁.sys.view writes = s.sys.view writes) : QuietRun writes s s₁ := by
  have hlog : s₁.sys.log = s.sys.log := congrArg (·.2) h
  exact ⟨[], by rw [hlog, List.append_nil], fun _ => congrArg (·.1) h⟩

theorem QuietRun.of_seen (h : seen writes clean s₁.sys = seen writes clean s.sys) :
    QuietRun writes s s₁ :=
  .silent (congrArg (fun v => (v.1.1, v.2)) h)

theorem QuietRun.trans (h : QuietRun writes s s₁) (h₁ : QuietRun writes s₁ s₂) :
    QuietRun writes s s₂ := by
  obtain ⟨opens, hlog, hw⟩ := h
  obtain ⟨opens₁, hlog₁, hw₁⟩ := h₁
  refine ⟨opens ++ opens₁, by rw [hlog₁, hlog, List.append_assoc], fun hall => ?_⟩
  rw [hw₁ fun c hc => hall c (List.mem_append_right _ hc),
    hw fun c hc => hall c (List.mem_append_left _ hc)]

/-- Between two states no file was opened, and if `fd` was clean nothing was written and it still is. -/
structure CleanRun (writes : σ → Nat) (clean : σ → Ptr → Prop) (fd : Ptr)
    (s s' : WalkState (Logged Bool σ)) : Prop where
  log : s'.sys.log = s.sys.log
  writes : clean s.sys.sys fd → writes s'.sys.sys = writes s.sys.sys
  clean : clean s.sys.sys fd → clean s'.sys.sys fd

theorem CleanRun.of_seen {fd : Ptr} (h : seen writes clean s₁.sys = seen writes clean s.sys) :
    CleanRun writes clean fd s s₁ := by
  refine ⟨congrArg (·.2) h, fun _ => congrArg (·.1.1) h, fun hclean => ?_⟩
  have hcl : clean s₁.sys.sys = clean s.sys.sys := congrArg (·.1.2) h
  rw [hcl]
  exact hclean

theorem CleanRun.trans {fd : Ptr} (h : CleanRun writes clean fd s s₁)
    (h₁ : CleanRun writes clean fd s₁ s₂) : CleanRun writes clean fd s s₂ where
  log := h₁.log.trans h.log
  writes hclean := (h₁.writes (h.clean hclean)).trans (h.writes hclean)
  clean hclean := h₁.clean (h.clean hclean)

theorem Libc.lift_writes (hl : LibcKeeps libc fun w => (writes w, clean w)) :
    LibcKeeps (libc.lift : Libc (Logged Bool σ)) (Logged.view writes) :=
  Libc.lift_view (hl.comp Prod.fst)

/-- The image, with a record of its opens. -/
abbrev recordedImage (libc : Libc σ) (rp : Repair σ) (lf : Lfs σ) (lfs : Option Ptr) :
    Vfs (Logged Bool σ) Ptr Ptr :=
  vfsLfs libc.lift ((rp.over lf).recordedOpens rp.consistent) lfs

section Calls

variable (hl : LibcKeeps libc fun w => (writes w, clean w)) (hc : ReadOnlyCalls rp lf writes clean)

include hl hc

/-- Opening a file in a consistent state writes nothing and yields a clean file. -/
theorem sourceOpen_quiet {path : CString} {r : Option Ptr}
    (h : s.openFile (recordedImage libc rp lf lfs) path O_RDONLY = (r, s₁)) :
    ∃ opens, s₁.sys.log = s.sys.log ++ opens ∧ ((∀ consistent ∈ opens, consistent = true) →
      writes s₁.sys.sys = writes s.sys.sys ∧ ∀ file, r = some file → clean s₁.sys.sys file) := by
  have ho := openFile_sys h
  simp only [recordedImage, vfsLfs] at ho
  obtain ⟨hr, hw⟩ | ⟨file, w₁, w₂, err, hw₁, hcall, hw, hr⟩ := lfsOpen_cases (Libc.lift_view hl) ho
  · refine ⟨[], by rw [List.append_nil]; exact congrArg (·.2) hw, fun _ => ⟨congrArg (·.1.1) hw, ?_⟩⟩
    intro file hfile
    rw [hr] at hfile
    cases hfile
  · simp only [Lfs.recordedOpens, Repair.over, Logged.call, Prod.mk.injEq] at hcall
    obtain ⟨herr, hw₂⟩ := hcall
    have hlog : s₁.sys.log = s.sys.log ++ [rp.consistent w₁.sys] := by
      have hlog₁ : w₁.log = s.sys.log := congrArg (·.2) hw₁
      have hlog₂ : s₁.sys.log = w₂.log := congrArg (·.2) hw
      rw [hlog₂, ← hw₂, hlog₁]
    refine ⟨_, hlog, fun hall => ?_⟩
    have hcons := hall _ (List.mem_singleton_self _)
    have hflags : lfsFlags O_RDONLY = 0 := rfl
    rw [fileOpencfg_of_consistent hcons, hflags] at herr hw₂
    obtain ⟨hwrites, hclean⟩ := hc.openFile lfs file path w₁.sys
    have hsys : w₂.sys = (rp.openFile lfs file path 0 w₁.sys).2 := congrArg (·.sys) hw₂.symm
    have hafter : writes s₁.sys.sys = writes w₂.sys := congrArg (·.1.1) hw
    have hbefore : writes w₁.sys = writes s.sys.sys := congrArg (·.1.1) hw₁
    refine ⟨by rw [hafter, hsys, hwrites, hbefore], fun file' hfile' => ?_⟩
    rcases hr with ⟨_, hnone⟩ | ⟨hpos, hsome⟩
    · rw [hnone] at hfile'
      cases hfile'
    · rw [hsome, Option.some.injEq] at hfile'
      have hcl : clean s₁.sys.sys = clean w₂.sys := congrArg (·.1.2) hw
      rw [← hfile', hcl, hsys]
      exact hclean (by rw [herr]; exact hpos)

omit hl in
theorem sourceRead_clean {fd : Ptr} {rb : Int}
    (h : s.readBuffer (recordedImage libc rp lf lfs) (some fd) = (rb, s₁)) :
    CleanRun writes clean fd s s₁ := by
  have hr := readBuffer_sys h
  simp only [recordedImage, vfsLfs] at hr
  obtain ⟨o, hcall, _⟩ := lfsRead_cases hr
  have hsys : (lf.fileRead lfs fd bufferSize s.sys.sys).2 = s₁.sys.sys := congrArg (·.2.sys) hcall
  refine ⟨(congrArg (·.2.log) hcall).symm, fun hfd => ?_, fun hfd => ?_⟩
  · rw [← hsys]
    exact (hc.fileRead lfs fd bufferSize s.sys.sys hfd).1
  · rw [← hsys]
    exact (hc.fileRead lfs fd bufferSize s.sys.sys hfd).2

omit hl hc in
theorem imageClose_log (fd : Ptr) (s : WalkState (Logged Bool σ)) :
    (s.closeFile (recordedImage libc rp lf lfs) (some fd)).2.sys.log = s.sys.log :=
  lfsClose_keeps (Libc.lift_keeps libc) rfl

theorem sourceClose_writes {fd : Ptr} {s : WalkState (Logged Bool σ)} (hfd : clean s.sys.sys fd) :
    writes (s.closeFile (recordedImage libc rp lf lfs) (some fd)).2.sys.sys = writes s.sys.sys := by
  have hview : (s.closeFile (recordedImage libc rp lf lfs) (some fd)).2.sys.view writes =
      s.sys.view writes :=
    lfsClose_keeps (Libc.lift_writes hl) (congrArg (·, s.sys.log) (hc.fileClose lfs fd _ hfd))
  exact congrArg (·.1) hview

theorem sourceOpendir_quiet {path : CString} {r : Option Ptr}
    (h : s.openDir (recordedImage libc rp lf lfs) path = (r, s₁)) : QuietRun writes s s₁ := by
  have hcall : ∀ (d : Ptr) (w : Logged Bool σ),
      (((rp.over lf).recordedOpens rp.consistent).dirOpen lfs d path w).2.view writes =
        w.view writes :=
    fun d w => congrArg (·, w.log) (hc.dirOpen lfs d path w.sys)
  exact .silent (openDir_keeps (lfsOpendir_keeps (Libc.lift_writes hl) hcall) h)

theorem sourceClosedir_quiet (d : Ptr) (s : WalkState (Logged Bool σ)) :
    QuietRun writes s (s.closeDir (recordedImage libc rp lf lfs) (some d)).2 :=
  .silent (lfsClosedir_keeps (Libc.lift_writes hl) (congrArg (·, s.sys.log)
    (hc.dirClose lfs d s.sys.sys)))

omit hl in
theorem sourceReaddir_quiet {d : Ptr} {found : Bool}
    (h : s.readDir (recordedImage libc rp lf lfs) (some d) = (found, s₁)) : QuietRun writes s s₁ :=
  .silent (readDir_keeps (lfsReaddir_keeps (congrArg (·, s.sys.log)
    (hc.dirRead lfs d s.sys.sys))) h)

end Calls

section Quiet

variable {φ' δ' : Type} {target : Vfs (Logged Bool σ) φ' δ'}
  (hl : LibcKeeps libc fun w => (writes w, clean w)) (hc : ReadOnlyCalls rp lf writes clean)
  (ht : VfsKeeps target (seen writes clean))

include ht

theorem targetWrite_clean {fd : Ptr} {out : Option φ'} {rb wb : Int}
    (h : s.writeBuffer target out rb = (wb, s₁)) : CleanRun writes clean fd s s₁ :=
  .of_seen (writeBuffer_keeps (ht.write _ _ _ _) h)

theorem targetOpen_quiet {path : CString} {flags : Nat} {out : Option φ'}
    (h : s.openFile target path flags = (out, s₁)) : QuietRun writes s s₁ :=
  .of_seen (openFile_keeps (ht.open_ _ _) h)

theorem targetClose_quiet (out : Option φ') (s : WalkState (Logged Bool σ)) :
    QuietRun writes s (s.closeFile target out).2 := .of_seen (ht.close _ _)

theorem targetMkdir_quiet {path : CString} {err : Int} (h : s.makeDir target path = (err, s₁)) :
    QuietRun writes s s₁ :=
  .of_seen (makeDir_keeps (ht.mkdir _) h)

include hc

theorem CopyRun.keepsClean {inn : Ptr} {out : Option φ'} {r : Int}
    (h : CopyRun (recordedImage libc rp lf lfs) target (some inn) out s r s₁) :
    CleanRun writes clean inn s s₁ := by
  induction h with
  | readFail hr _ => exact sourceRead_clean hc hr
  | writeFail hr _ hw _ => exact (sourceRead_clean hc hr).trans (targetWrite_clean ht hw)
  | last hr _ hw _ => exact (sourceRead_clean hc hr).trans (targetWrite_clean ht hw)
  | more hr _ hw _ _ ih =>
    exact ((sourceRead_clean hc hr).trans (targetWrite_clean ht hw)).trans ih

include hl

theorem FileRun.quiet {path : CString} {r : Int}
    (h : FileRun (recordedImage libc rp lf lfs) target path s r s₁) : QuietRun writes s s₁ := by
  cases h with
  | outFail ho => exact targetOpen_quiet ht ho
  | inFail ho hi =>
    obtain ⟨opens, hlog, hw⟩ := sourceOpen_quiet hl hc hi
    have hin : QuietRun writes _ _ := ⟨opens, hlog, fun hall => (hw hall).1⟩
    exact ((targetOpen_quiet ht ho).trans hin).trans (targetClose_quiet ht _ _)
  | @copied t₁ s₂ s₃ _ inn _ ho hi hcopy =>
    obtain ⟨opens, hlog, hw⟩ := sourceOpen_quiet hl hc hi
    have hrun := hcopy.keepsClean hc ht
    have hin : QuietRun writes t₁ (s₃.closeFile (recordedImage libc rp lf lfs) (some inn)).2 := by
      refine ⟨opens, by rw [imageClose_log, hrun.log, hlog], fun hall => ?_⟩
      obtain ⟨hwrites, hclean⟩ := hw hall
      have hinn := hclean inn rfl
      rw [sourceClose_writes hl hc (hrun.clean hinn), hrun.writes hinn, hwrites]
    exact ((targetOpen_quiet ht ho).trans hin).trans (targetClose_quiet ht _ _)

theorem WalkRun.quiet {task : Task Ptr} {r : Int}
    (h : WalkRun libc.lift (recordedImage libc rp lf lfs) target task s r s₁) :
    QuietRun writes s s₁ := by
  have hpath : ∀ {path : CString} {p : Option HeapString} {s s₁ : WalkState (Logged Bool σ)},
      s.entryPath libc.lift path = (p, s₁) → QuietRun writes s s₁ :=
    fun ha => .of_seen (entryPath_keeps (Libc.lift_view hl) ha)
  have hfree : ∀ (p : Option HeapString) (s : WalkState (Logged Bool σ)),
      QuietRun writes s (s.freePath libc.lift p) :=
    fun p s => .of_seen ((Libc.lift_view hl).free _ s.sys)
  induction h with
  | mkdirFail hm _ => exact (targetMkdir_quiet ht hm).trans (hfree _ _)
  | opendirFail hm ho => exact ((targetMkdir_quiet ht hm).trans (sourceOpendir_quiet hl hc ho)).trans (hfree _ _)
  | opened hm ho _ ih =>
    have hopen := (targetMkdir_quiet ht hm).trans (sourceOpendir_quiet hl hc ho)
    exact (hopen.trans ih).trans (sourceClosedir_quiet hl hc _ _)
  | readdirFail hd => exact (sourceReaddir_quiet hc hd).trans (hfree _ _)
  | finished hd _ => exact (sourceReaddir_quiet hc hd).trans (hfree _ _)
  | allocFail hd _ ha => exact ((sourceReaddir_quiet hc hd).trans (hpath ha)).trans (hfree _ _)
  | entryFail hd _ ha _ _ ih =>
    exact (((sourceReaddir_quiet hc hd).trans (hpath ha)).trans ih).trans (hfree _ _)
  | next hd _ ha _ _ ihe ih =>
    have hentry := ((sourceReaddir_quiet hc hd).trans (hpath ha)).trans ihe
    exact (hentry.trans (hfree _ _)).trans ih
  | file _ hf => exact hf.quiet hl hc ht
  | subtree _ _ _ _ ih => exact ih
  | skipped _ _ => exact .silent rfl

end Quiet

end Run

/-! ## Runs of `main` -/

section Main

variable {σ : Type}

/-- The program over littlefs with this way to open a file. -/
def Sys.repairing (sys : Sys σ) (rp : Repair σ) : Sys σ := { sys with lf := rp.over sys.lf }

/-- For each file an extraction opens in the image, whether there was nothing to repair just then. -/
def opensRecord (sys : Sys σ) (rp : Repair σ) (fuel : Nat) (request : Request) (lfs : Option Ptr)
    (w : σ) : Option (List Bool) :=
  (traversal sys.libc.lift (recordedImage sys.libc rp sys.lf lfs)
    (vfsNative sys.libc.lift sys.px.lift request.directory) fuel [slash]
    (WalkState.start w).unrecorded).map (·.2.sys.log)

variable {sys : Sys σ} {rp : Repair σ} {writes : σ → Nat} {clean : σ → Ptr → Prop}

theorem lfsMount_writes (hc : ReadOnlyCalls rp sys.lf writes clean) (hu : Unrelated sys writes clean)
    (c : LfsConfig) (w : σ) :
    writes (lfsMount sys.libc (sys.repairing rp).lf c w).2 = writes w := by
  have hmalloc : writes (sys.libc.malloc sizeofLfs w).2 = writes w :=
    congrArg (·.1) (hu.libc.malloc sizeofLfs w)
  have hfree : ∀ p w, writes (sys.libc.free p w) = writes w := fun p w => congrArg (·.1) (hu.libc.free p w)
  simp only [lfsMount]
  split
  · rename_i w₁ hm
    rw [hm] at hmalloc
    rw [hfree, hmalloc]
  · rename_i lfs w₁ hm
    rw [hm] at hmalloc
    have hmount : writes (sys.lf.mount lfs c w₁).2 = writes w₁ := hc.mount lfs c w₁
    split
    · exact hmount.trans hmalloc
    · rw [hfree]
      exact hmount.trans hmalloc

/-- Mounting the image for an extraction writes nothing. -/
theorem setup_writes (hc : ReadOnlyCalls rp sys.lf writes clean) (hu : Unrelated sys writes clean)
    {args : List CString} {w w₁ : σ} {request : Request} {lfs : Option Ptr}
    (h : setup (sys.repairing rp) args w = .mounted request lfs w₁) (hx : request.create = false) :
    writes w₁ = writes w := by
  simp only [setup] at h
  split at h
  · cases h
  · cases h
  · split at h
    · split at h <;> cases h
    · rename_i request' _ c w₂ hget
      split at h
      · cases h
      · cases h
        have hw₂ : writes w₂ = writes w := by
          rw [hx, vfsLfsGet] at hget
          simp only [Bool.false_eq_true, if_false] at hget
          split at hget
          · cases hget
          · cases hget
            exact hu.fopen _ _ _
        rw [← hw₂]
        exact lfsMount_writes hc hu c w₂

theorem mainDone_writes (hc : ReadOnlyCalls rp sys.lf writes clean)
    (hu : Unrelated sys writes clean) (result : Nat) (lfs : Option Ptr) (traversed : Option Int)
    (w : σ) : writes (mainDone (sys.repairing rp) result (some lfs) traversed w).2 = writes w := by
  have hunmount : writes (sys.lf.unmount lfs w).2 = writes w := hc.unmount lfs w
  simp only [mainDone, lfsUnmount]
  split
  · have hfree := congrArg (·.1) (hu.libc.free lfs (sys.lf.unmount lfs w).2)
    exact hfree.trans hunmount
  · exact hunmount

theorem transfer_writes (hc : ReadOnlyCalls rp sys.lf writes clean) (hu : Unrelated sys writes clean)
    {fuel : Nat} {w : σ} {request : Request} {lfs : Option Ptr} {r : Int} {s : WalkState σ}
    (hx : request.create = false)
    (h : transfer (sys.repairing rp) fuel request lfs w = some (r, s)) :
    ∃ opens, opensRecord sys rp fuel request lfs w = some opens ∧
      ((∀ consistent ∈ opens, consistent = true) → writes s.sys = writes w) := by
  have hl : LibcHom Logged.sys (sys.libc.lift : Libc (Logged Bool σ)) sys.libc := sys.libc.lift_hom
  simp only [transfer, hx, Bool.false_eq_true, if_false] at h
  have hmap := traversal_map hl (vfsLfs_hom hl ((rp.over sys.lf).recordedOpens_hom rp.consistent) lfs)
    (vfsNative_hom hl sys.px.lift_hom request.directory) fuel [slash] (WalkState.start w).unrecorded
  obtain ⟨⟨r', s₁⟩, hrun, hs₁⟩ := Option.map_eq_some_iff.mp (hmap.symm.trans h)
  obtain ⟨_, rfl⟩ := Prod.mk.inj hs₁
  have htarget : VfsKeeps (vfsNative sys.libc.lift sys.px.lift request.directory) (seen writes clean) :=
    vfsNative_keeps (Libc.lift_view hu.libc) (Posix.lift_view hu.px) request.directory
  obtain ⟨opens, hlog, hw⟩ := (traversal_run hrun).quiet hu.libc hc htarget
  exact ⟨opens, by rw [opensRecord, hrun]; exact congrArg some hlog, hw⟩

theorem extraction_reads_only (hc : ReadOnlyCalls rp sys.lf writes clean)
    (hu : Unrelated sys writes clean) {fuel : Nat} {args : List CString} {w w₁ w' : σ}
    {request : Request} {lfs : Option Ptr} {f : Finished}
    (hmounted : setup (sys.repairing rp) args w = .mounted request lfs w₁)
    (hx : request.create = false) (h : main (sys.repairing rp) fuel args w = some (f, w')) :
    ∃ opens, opensRecord sys rp fuel request lfs w₁ = some opens ∧
      ((∀ consistent ∈ opens, consistent = true) → writes w' = writes w) := by
  simp only [main, hmounted] at h
  split at h
  · cases h
  · rename_i r s htr
    obtain ⟨opens, hopens, hw⟩ := transfer_writes hc hu hx htr
    refine ⟨opens, hopens, fun hall => ?_⟩
    have hdone := mainDone_writes hc hu EXIT_SUCCESS lfs (some r) s.sys
    rw [Option.some.inj h] at hdone
    rw [hdone, hw hall, setup_writes hc hu hmounted hx]

end Main

/-- littlefs on an image whose global state has the given tag. Opening a file asks for one write when
there are orphans, which fails on a file opened with `"rb"`. -/
def taggedRepair (tag : UInt32) : Repair (Logged Unit World) where
  gstate _ := tag
  fixMove w := w.call (-1, w.sys) ()
  fixOrphans w := w.call (-1, w.sys) ()
  openFile lfs file path flags w := w.lift ((treeLfs calmEnv).fileOpen lfs file path flags w.sys)

def loggedSys : Sys (Logged Unit World) where
  libc := (treeLibc calmEnv).lift
  stdio := {
    fopen := fun image mode w => w.lift (treeStdio.fopen image mode w.sys)
    fseek := fun pos w => w.lift (treeStdio.fseek pos w.sys)
    fread := fun n w => w.lift (treeStdio.fread n w.sys)
    fwrite := fun data w => w.lift (treeStdio.fwrite data w.sys)
    fputc := fun b w => w.lift (treeStdio.fputc b w.sys)
    fflush := fun w => w.lift (treeStdio.fflush w.sys) }
  lf := (treeLfs calmEnv).lift
  px := (treePosix calmEnv).lift

def writesOf (w : Logged Unit World) : Nat := w.log.length

theorem readOnlyCalls_tagged (tag : UInt32) :
    ReadOnlyCalls (taggedRepair tag) loggedSys.lf writesOf fun _ _ => True :=
  ⟨fun _ _ _ => rfl, fun _ _ => rfl, fun _ _ _ _ => rfl, fun _ _ _ => rfl, fun _ _ _ => rfl,
    fun _ _ _ _ => ⟨rfl, fun _ => trivial⟩, fun _ _ _ _ _ => ⟨rfl, trivial⟩, fun _ _ _ _ => rfl⟩

theorem unrelated_logged : Unrelated loggedSys writesOf fun _ _ => True where
  libc := ⟨fun _ _ => rfl, fun _ _ => rfl⟩
  px := ⟨fun _ _ _ => rfl, fun _ _ => rfl, fun _ _ _ => rfl, fun _ _ _ => rfl, fun _ _ => rfl,
    fun _ _ => rfl, fun _ _ => rfl, fun _ _ => rfl, fun _ _ => rfl⟩
  fopen _ _ _ := rfl

/-- What `extractArgs` ask for. -/
def extractRequest : Request := ⟨false, aName, calmEnv.directory, 0, 0, 0, 0⟩

theorem parseArgs_extractArgs : parseArgs extractArgs = .ok extractRequest := by decide +kernel

/-- After one allocation and the mount. -/
def mountedWorld : Logged Unit World :=
  ⟨{ oneFile aName with allocs := 1, image := (oneFile aName).image.step }, []⟩

theorem extraction_reads_only_oneFile :
    ∃ f w', main (loggedSys.repairing (taggedRepair 0)) 8 extractArgs ⟨oneFile aName, []⟩ =
      some (f, w') ∧ f.traversal = some 0 ∧ writesOf w' = 0 := by
  have hrun : (main (loggedSys.repairing (taggedRepair 0)) 8 extractArgs ⟨oneFile aName, []⟩).map
      (·.1.traversal) = some (some 0) := by
    decide +kernel
  obtain ⟨⟨f, w'⟩, h, htraversal⟩ := Option.map_eq_some_iff.mp hrun
  have hmounted : setup (loggedSys.repairing (taggedRepair 0)) extractArgs ⟨oneFile aName, []⟩ =
      .mounted extractRequest (some 1) mountedWorld := by
    rw [setup, parseArgs_extractArgs]
    rfl
  have hrecord : opensRecord loggedSys (taggedRepair 0) 8 extractRequest (some 1) mountedWorld =
      some [true] := by
    decide +kernel
  obtain ⟨opens, hopens, hw⟩ := extraction_reads_only (readOnlyCalls_tagged 0) unrelated_logged
    hmounted rfl h
  rw [hrecord, Option.some.injEq] at hopens
  subst hopens
  exact ⟨f, w', h, htraversal, hw (by simp)⟩

/-- With one orphan recorded the extraction of a file calls `fs_prog`. -/
theorem extraction_writes_oneFile :
    ∃ f w', main (loggedSys.repairing (taggedRepair 0x80000001)) 8 extractArgs ⟨oneFile aName, []⟩ =
      some (f, w') ∧ f.exit = .status EXIT_SUCCESS ∧ f.traversal = some (-1) ∧ f.unmount = some 0 ∧
      writesOf ⟨oneFile aName, []⟩ = 0 ∧ writesOf w' = 1 := by
  have hrun : (main (loggedSys.repairing (taggedRepair 0x80000001)) 8 extractArgs ⟨oneFile aName, []⟩).map
      (fun r => (r.1, writesOf r.2)) = some (⟨.status EXIT_SUCCESS, some (-1), some 0⟩, 1) := by
    decide +kernel
  obtain ⟨⟨f, w'⟩, h, hr⟩ := Option.map_eq_some_iff.mp hrun
  simp only [Prod.mk.injEq] at hr
  obtain ⟨rfl, hwrites⟩ := hr
  exact ⟨_, w', h, rfl, rfl, rfl, rfl, hwrites⟩

end LfsTool
