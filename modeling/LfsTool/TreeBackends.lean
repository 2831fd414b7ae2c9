import LfsTool.Transfer
import LfsTool.Native
import LfsTool.Lfs

/-!
# LfsTool.TreeBackends

The two back ends over tree file systems: the system calls work on one disk, littlefs on another, and
every call takes its outcome from a script (`Env`).

* `treePosix`: paths are resolved by name against the current directory, there being no symbolic
  links. `treeLfs`: littlefs as a plain tree file system.
* `create_env`, `extract_env`: with these, `vfsNative` and `vfsLfs` are what the walk takes a source
  and a target for, in both directions.
-/

namespace LfsTool

open PathSyntax TreeFs

/-- The world outside the program: how often memory was allocated, the disk with the native tree,
and the image. -/
structure World where
  allocs : Nat
  native : Disk
  image : Disk

namespace World

variable {α : Type}

def onNative (w : World) (r : α × Disk) : α × World := (r.1, { w with native := r.2 })

def onImage (w : World) (r : α × Disk) : α × World := (r.1, { w with image := r.2 })

end World

/-- All that is decided outside the program: what each `malloc` returns, the outcomes of the calls on
either disk, the current directory, the directory option and the address of the mounted `lfs_t`. -/
structure Env where
  malloc : Nat → Option Ptr
  native : Script
  image : Script
  cwd : Path
  directory : CString
  lfs : Option Ptr

def treeLibc (env : Env) : Libc World where
  malloc _ w := (env.malloc w.allocs, { w with allocs := w.allocs + 1 })
  free _ w := w

/-- The path below the root that a path string denotes. -/
def resolve (cwd : Path) (path : CString) : Path :=
  ((components path).foldl (push true) (if isAbsolute path then [] else cwd.reverse)).reverse

/-- The path denotes a directory or nothing. -/
def endsInDots (path : CString) : Bool :=
  match (components path).getLast? with
  | some n => IsDots n
  | none => false

/-- What `readdir` returns for what the stream yields. -/
def ReaddirResult.ofItem : DirItem → ReaddirResult
  | .error => .error
  | .finished => .endOfDir
  | .item n => .entry n

abbrev ENOENT : Nat := 2
abbrev EFAULT : Nat := 14

/-- The system calls on the native disk, with the two combinations of flags the program uses. -/
def treePosix (env : Env) : Posix World where
  open_ path flags w :=
    let fd := (env.native w.native.tick).handle
    let p := resolve env.cwd path
    if flags = O_RDONLY then
      w.onNative ((w.native.openRead env.native fd p).map (fun ok => if ok then (fd : Int) else -1) id)
    else if flags = O_CREAT ||| O_TRUNC ||| O_WRONLY then
      w.onNative ((w.native.openWrite env.native fd p).map (fun ok => if ok then (fd : Int) else -1) id)
    else (-1, w)
  close fd w :=
    w.onNative ((w.native.close env.native fd.toNat).map (fun ok => if ok then 0 else -1) id)
  read fd n w := w.onNative (w.native.read env.native fd.toNat n)
  write fd data w := w.onNative (w.native.write env.native fd.toNat data)
  opendir path w :=
    let dir := (env.native w.native.tick).handle
    w.onNative ((w.native.openDir env.native dir (resolve env.cwd path)).map
      (fun ok => if ok then some dir else none) id)
  closedir dir w :=
    w.onNative ((w.native.closeDir env.native dir).map (fun ok => if ok then 0 else -1) id)
  readdir dir w :=
    w.onNative ((w.native.readDir env.native dir).map ReaddirResult.ofItem id)
  stat path w :=
    w.onNative ((w.native.look env.native (resolve env.cwd path)).map (fun
      | none => none
      | some .dir => some .dir
      | some (.file _) => if endsInDots path then none else some .reg) id)
  mkdir path w :=
    match path with
    | none => ((-1, EFAULT), w)
    | some path =>
      w.onNative ((w.native.makeDir env.native (resolve env.cwd path)).map (fun
        | .made => (0, 0)
        | .existing => (-1, EEXIST)
        | .fail => (-1, ENOENT)) id)

/-- What `lfs_dir_read` returns for what the stream yields, and the entry it fills in. -/
def dirReadInfo (d : Disk) (dir : Ptr) : DirItem → Int × LfsInfo
  | .error => (LFS_ERR_CORRUPT, ⟨0, []⟩)
  | .finished => (0, ⟨0, []⟩)
  | .item n =>
    if IsDots n then (1, ⟨LFS_TYPE_DIR, n⟩)
    else
      match (d.dir dir).bind fun s => d.fs.get (s.path ++ [n]) with
      | none => (LFS_ERR_CORRUPT, ⟨0, []⟩)
      | some .dir => (1, ⟨LFS_TYPE_DIR, n⟩)
      | some (.file _) => (1, ⟨LFS_TYPE_REG, n⟩)

/-- littlefs as a tree file system; a path has no current directory. Formatting leaves the root. -/
def treeLfs (env : Env) : Lfs World where
  format _ w :=
    if (env.image w.image.tick).ok then
      (0, { w with image := { w.image.step with fs := [([], .dir)] } })
    else (LFS_ERR_CORRUPT, { w with image := w.image.step })
  mount _ _ w :=
    (if (env.image w.image.tick).ok then 0 else LFS_ERR_CORRUPT, { w with image := w.image.step })
  unmount _ w :=
    (if (env.image w.image.tick).ok then 0 else LFS_ERR_CORRUPT, { w with image := w.image.step })
  mkdir _ path w :=
    w.onImage ((w.image.makeDir env.image (resolve [] path)).map (fun
      | .made => 0
      | .existing => LFS_ERR_EXIST
      | .fail => LFS_ERR_CORRUPT) id)
  fileOpen _ file path flags w :=
    let p := resolve [] path
    if flags = lfsFlags (O_CREAT ||| O_TRUNC ||| O_WRONLY) then
      w.onImage ((w.image.openWrite env.image file p).map
        (fun ok => if ok then 0 else LFS_ERR_CORRUPT) id)
    else if flags = lfsFlags O_RDONLY then
      w.onImage ((w.image.openRead env.image file p).map
        (fun ok => if ok then 0 else LFS_ERR_CORRUPT) id)
    else (LFS_ERR_CORRUPT, w)
  fileClose _ file w :=
    w.onImage ((w.image.close env.image file).map (fun ok => if ok then 0 else LFS_ERR_CORRUPT) id)
  fileRead _ file n w := w.onImage (w.image.read env.image file n)
  fileWrite _ file data w := w.onImage (w.image.write env.image file data)
  dirOpen _ dir path w :=
    w.onImage ((w.image.openDir env.image dir (resolve [] path)).map
      (fun ok => if ok then 0 else LFS_ERR_CORRUPT) id)
  dirClose _ dir w :=
    w.onImage ((w.image.closeDir env.image dir).map (fun ok => if ok then 0 else LFS_ERR_CORRUPT) id)
  dirRead _ dir w :=
    w.onImage ((w.image.readDir env.image dir).map (dirReadInfo w.image dir) id)

/-! ## Paths -/

theorem resolve_slash (cwd : Path) : resolve cwd [slash] = [] := rfl

/-- Where a path of the walk is, below the directory option. -/
theorem resolve_joinPath (cwd : Path) (dir : CString) {path : CString} {p : Path}
    (hn : Names path p) :
    resolve cwd (joinPath dir path) = resolve cwd (joinPath dir [slash]) ++ p := by
  have habs : isAbsolute (joinPath dir path) = isAbsolute (joinPath dir [slash]) := by
    by_cases hdir : dir = []
    · rw [hdir, joinPath_nil, joinPath_nil, hn.absolute]
      rfl
    · rw [isAbsolute_joinPath hdir, isAbsolute_joinPath hdir]
  have hslash : components [slash] = [] := rfl
  simp only [resolve, habs, components_joinPath, hn.components, hslash, List.append_nil,
    List.foldl_append]
  rw [foldl_push_proper _ _ hn.proper, List.reverse_append, List.reverse_reverse]

/-- A proper name joined to a path is one step down. -/
theorem resolve_name (cwd : Path) {dir : CString} (hdir : dir ≠ []) {n : Name} (hn : Proper n) :
    resolve cwd (joinPath dir n) = resolve cwd dir ++ [n] := by
  simp only [resolve, isAbsolute_joinPath hdir, components_joinPath, hn.components,
    List.foldl_append, List.foldl_cons, List.foldl_nil]
  rw [push, if_neg hn.ne_dot, if_neg hn.ne_dotdot, List.reverse_cons]

theorem endsInDots_joinPath (dir : CString) {n : Name} (hn : components n = [n]) :
    endsInDots (joinPath dir n) = decide (IsDots n) := by
  simp [endsInDots, components_joinPath, hn]

theorem components_dots {n : Name} (hn : IsDots n) : components n = [n] := by
  rcases hn with rfl | rfl <;> rfl

theorem nul_not_mem_name {n : Name} (hn : IsDots n ∨ Proper n) : (0 : UInt8) ∉ n := by
  rcases hn with (rfl | rfl) | hn
  · decide
  · decide
  · exact hn.no_nul

/-! ## The native back end -/

section Native

variable (env : Env)

theorem treeLibc_native : LibcKeeps (treeLibc env) (·.native) := ⟨fun _ _ => rfl, fun _ _ => rfl⟩
theorem treeLibc_image : LibcKeeps (treeLibc env) (·.image) := ⟨fun _ _ => rfl, fun _ _ => rfl⟩

theorem treePosix_keeps : PosixKeeps (treePosix env) (·.image) where
  open_ path flags w := by
    simp only [treePosix]
    split
    · rfl
    · split <;> rfl
  close _ _ := rfl
  read _ _ _ := rfl
  write _ _ _ := rfl
  opendir _ _ := rfl
  closedir _ _ := rfl
  readdir _ _ := rfl
  stat _ _ := rfl
  mkdir path w := by cases path <;> rfl

/-- `m_vfs_native` on the disk of the directory option. -/
def treeNative : Vfs World NativeFile NativeDir :=
  vfsNative (treeLibc env) (treePosix env) env.directory

def nativeLens : TreeLens World NativeFile NativeDir where
  view w := w.native.view
  root := resolve env.cwd (joinPath env.directory [slash])
  file h := h.fd.toNat
  dir h := h.dir
  opened h p := ∃ path, Names path p ∧ h.dirname.str = joinPath env.directory path

/-- A call that returns 0 when it succeeds and something else when it does not. -/
theorem decide_code {c : Int} (hc : c ≠ 0) (ok : Bool) :
    decide ((if ok = true then 0 else c) = 0) = ok := by
  cases ok <;> simp [hc]

theorem treePosix_openRead {path : CString} {w w' : World} {fd : Int}
    (h : (treePosix env).open_ path O_RDONLY w = (fd, w')) :
    OpenRead w.native.view (resolve env.cwd path) (if 0 ≤ fd then some fd.toNat else none)
      w'.native.view := by
  have hspec := Disk.openRead_spec env.native w.native (env.native w.native.tick).handle
    (resolve env.cwd path)
  simp only [treePosix, if_true] at h
  cases h
  simp only [Prod.map_fst, Prod.map_snd, id_eq]
  cases hok : (w.native.openRead env.native (env.native w.native.tick).handle
    (resolve env.cwd path)).1 <;> simpa [hok] using hspec

theorem treePosix_openWrite {path : CString} {w w' : World} {fd : Int}
    (h : (treePosix env).open_ path (O_CREAT ||| O_TRUNC ||| O_WRONLY) w = (fd, w')) :
    OpenWrite w.native.view (resolve env.cwd path) (if 0 ≤ fd then some fd.toNat else none)
      w'.native.view := by
  have hspec := Disk.openWrite_spec env.native w.native (env.native w.native.tick).handle
    (resolve env.cwd path)
  have hflags : O_CREAT ||| O_TRUNC ||| O_WRONLY ≠ O_RDONLY := by decide
  simp only [treePosix, if_neg hflags, if_true] at h
  cases h
  simp only [Prod.map_fst, Prod.map_snd, id_eq]
  cases hok : (w.native.openWrite env.native (env.native w.native.tick).handle
    (resolve env.cwd path)).1 <;> simpa [hok] using hspec

theorem treePosix_close {fd : Int} {w w' : World} {err : Int}
    (h : (treePosix env).close fd w = (err, w')) :
    Close env.native.Durable w.native.view fd.toNat (err = 0) w'.native.view := by
  have hspec := Disk.close_spec env.native w.native fd.toNat
  simp only [treePosix] at h
  cases h
  simpa only [Prod.map_fst, Prod.map_snd, id_eq, decide_code (c := -1) (by decide)] using hspec

theorem treePosix_opendir {path : CString} {w w' : World} {r : Option Ptr}
    (h : (treePosix env).opendir path w = (r, w')) :
    OpenDir w.native.view (resolve env.cwd path) r w'.native.view := by
  have hspec := Disk.openDir_spec env.native w.native (env.native w.native.tick).handle
    (resolve env.cwd path)
  simp only [treePosix] at h
  cases h
  exact hspec

theorem treePosix_closedir {dir : Ptr} {w w' : World} {err : Int}
    (h : (treePosix env).closedir dir w = (err, w')) :
    CloseDir w.native.view dir w'.native.view := by
  have hspec := Disk.closeDir_spec env.native w.native dir
  simp only [treePosix] at h
  cases h
  exact hspec

theorem treePosix_mkdir {path : CString} {w w' : World} {err : Int} {errno : Nat}
    (h : (treePosix env).mkdir (some path) w = ((err, errno), w')) :
    MakeDir w.native.view (resolve env.cwd path) (err = 0 ∨ errno = EEXIST) w'.native.view := by
  have hspec := Disk.makeDir_spec env.native w.native (resolve env.cwd path)
  simp only [treePosix] at h
  cases hr : (w.native.makeDir env.native (resolve env.cwd path)).1 <;>
  · simp only [World.onNative, Prod.map, hr, Prod.mk.injEq] at h
    obtain ⟨⟨rfl, rfl⟩, rfl⟩ := h
    simpa [hr, ENOENT, EEXIST] using hspec

theorem treeNative_image : VfsKeeps (treeNative env) (·.image) :=
  vfsNative_keeps (treeLibc_image env) (treePosix_keeps env) _

theorem nativeFile_key {fd : Int} {r : Option NativeFile}
    (h : fd < 0 ∧ r = none ∨ 0 ≤ fd ∧ ∃ ptr, r = some ⟨ptr, fd⟩) :
    r.map (nativeLens env).file = if 0 ≤ fd then some fd.toNat else none := by
  rcases h with ⟨hneg, rfl⟩ | ⟨hpos, ptr, rfl⟩
  · rw [if_neg (by omega), Option.map_none]
  · rw [if_pos hpos, Option.map_some]
    rfl

theorem of_ite_some {α : Type} {c : Prop} [Decidable c] {a : Option α} {b : α}
    (h : (if c then a else none) = some b) : c ∧ a = some b := by
  split at h
  · rename_i hc
    exact ⟨hc, h⟩
  · cases h

/-- What `stat` says of a name in a directory. -/
theorem treePosix_stat {dir : CString} (hdir : dir ≠ []) {n : Name} (hn : IsDots n ∨ Proper n)
    {w w' : World} {r : Option FileMode}
    (h : (treePosix env).stat (joinPath dir n) w = (r, w')) :
    w'.native.view = w.native.view ∧
      (r = some .reg → Proper n ∧
        ∃ c, w.native.fs.get (resolve env.cwd dir ++ [n]) = some (.file c)) ∧
      (r = some .dir → IsDots n ∨
        Proper n ∧ w.native.fs.get (resolve env.cwd dir ++ [n]) = some .dir) := by
  simp only [treePosix, Disk.look] at h
  cases h
  refine ⟨rfl, ?_⟩
  rcases hn with hn | hn
  · -- the path ends in `.` or `..`
    have hend : endsInDots (joinPath dir n) = true := by
      rw [endsInDots_joinPath dir (components_dots hn)]
      exact decide_eq_true hn
    refine ⟨?_, fun _ => .inl hn⟩
    simp only [Prod.map, hend, if_true]
    split <;> simp
  · rw [← resolve_name env.cwd hdir hn]
    simp only [Prod.map]
    split
    · simp
    · rename_i hget
      exact ⟨by simp, fun _ => .inr ⟨hn, (of_ite_some hget).2⟩⟩
    · rename_i c hget
      exact ⟨fun _ => ⟨hn, c, (of_ite_some hget).2⟩, by split <;> simp⟩

theorem treePosix_readdir {dir : Ptr} {w w' : World} {r : ReaddirResult}
    (h : (treePosix env).readdir dir w = (r, w')) :
    ∃ o, r = .ofItem o ∧ ReadDir w.native.view dir o w'.native.view := by
  simp only [treePosix] at h
  cases h
  exact ⟨_, rfl, Disk.readDir_spec env.native w.native dir⟩

/-- A read of a directory stream that was not used in the end. -/
theorem readDir_dropped {v v' : View} {k : Nat} {o : DirItem} (h : ReadDir v k o v') :
    ReadDir v k .error v' := by
  cases h with
  | fail htree hfile hdir => exact .fail htree hfile hdir
  | finished _ htree hfile hdir => exact .fail htree hfile hdir.elsewhere
  | item _ htree hfile hdir => exact .fail htree hfile hdir.elsewhere

theorem treeNative_readdir {h : NativeDir} {p : Path} {rest : List Name} {slot slot' : Dirent}
    {w w' : World} {found : Bool} (hopen : (nativeLens env).opened h p)
    (hstream : w.native.dir h.dir = some ⟨(nativeLens env).root ++ p, rest⟩)
    (hrest : ∀ n ∈ rest, IsDots n ∨ Proper n)
    (hr : (treeNative env).readdir (some h) slot w = ((found, slot'), w')) :
    ∃ o, ReadDir w.native.view h.dir o w'.native.view ∧
      ReaddirBack w.native.view.tree ((nativeLens env).root ++ p) o found slot' := by
  simp only [treeNative, vfsNative] at hr
  obtain ⟨r, w₁, hread, hcases⟩ := nativeReaddir_cases (treeLibc_native env) hr
  obtain ⟨o, rfl, hspec⟩ := treePosix_readdir env hread
  obtain ⟨ho, rfl, hw⟩ | ⟨ho, rfl, rfl, hw⟩ | ⟨n, ho, ⟨rfl, hw⟩ | ⟨w₂, w₃, mode, hw₂, hs, hw, hfound⟩⟩ :=
    hcases
  · rw [← hw] at hspec
    exact ⟨.error, readDir_dropped hspec, .error⟩
  · rw [← hw] at hspec
    cases o with
    | finished => exact ⟨_, hspec, .finished rfl⟩
    | error | item => cases ho
  · rw [← hw] at hspec
    exact ⟨.error, readDir_dropped hspec, .error⟩
  · obtain ⟨path, hn, hdirname⟩ := hopen
    have hdir : h.dirname.str ≠ [] := by rw [hdirname]; exact joinPath_ne_nil _ hn.ne_nil
    have hroot : resolve env.cwd h.dirname.str = (nativeLens env).root ++ p := by
      rw [hdirname, resolve_joinPath _ _ hn]
      rfl
    cases o with
    | error | finished => cases ho
    | item m =>
      cases ho
      cases hspec with
      | @item q _ rest' _ hk htree hfile hdirs =>
        have hmem : n ∈ rest := by
          have := hk.symm.trans hstream
          simp only [Option.some.injEq, TreeFs.Stream.mk.injEq] at this
          rw [← this.2]
          simp
        obtain ⟨hview, hreg, hisdir⟩ := treePosix_stat env hdir (hrest n hmem) hs
        rw [hroot] at hreg hisdir
        have hw' : w'.native.view = w₁.native.view := by rw [hw, hview, hw₂]
        have hget : w₂.native.fs.get = w.native.view.tree := by rw [hw₂]; exact htree
        rw [hget] at hreg hisdir
        rw [hw']
        obtain rfl | ⟨rfl, hlen, ⟨rfl, rfl⟩ | ⟨rfl, rfl⟩⟩ := hfound
        · exact ⟨.error, .fail htree hfile hdirs.elsewhere, .error⟩
        · obtain ⟨hp, c, hc⟩ := hreg rfl
          exact ⟨.item n, .item hk htree hfile hdirs,
            .item ⟨(slot.setEntry_name hlen _).trans (cstr_of_nul_not_mem hp.no_nul), .inr ⟨hp, .inl ⟨⟨c, hc⟩, rfl⟩⟩⟩⟩
        · refine ⟨.item n, .item hk htree hfile hdirs, .item ⟨?_, ?_⟩⟩
          · exact (slot.setEntry_name hlen _).trans
              (cstr_of_nul_not_mem (nul_not_mem_name (hrest n hmem)))
          · rcases hisdir rfl with hdots | ⟨hp, hnode⟩
            · exact .inl ⟨hdots, rfl⟩
            · exact .inr ⟨hp, .inr ⟨hnode, rfl⟩⟩

theorem treeNative_close {h : NativeFile} {w w' : World} {err : Int}
    (hc : (treeNative env).close (some h) w = (err, w')) :
    Close env.native.Durable w.native.view h.fd.toNat (err = 0) w'.native.view := by
  simp only [treeNative, vfsNative] at hc
  obtain ⟨err', w₁, hclose, hw, herr⟩ := nativeClose_cases (treeLibc_native env) hc
  have hspec := treePosix_close env hclose
  simp only [← hw, ← herr] at hspec
  exact hspec

/-- The native tree as a source. -/
theorem treeNative_source :
    TreeSource env.native.FullReads (treeNative env) (nativeLens env) (·.image.view) where
  open_ := by
    intro path p w r w' hn h
    refine ⟨?_, by rw [← (treeNative_image env).open_ path O_RDONLY w, h]⟩
    simp only [treeNative, vfsNative] at h
    obtain ⟨rfl, hw⟩ | ⟨w₁, w₂, fd, hw₁, ho, hw, hr⟩ := nativeOpen_cases (treeLibc_native env) h
    · simp only [nativeLens, hw]
      exact .fail
    · have hopen := treePosix_openRead env ho
      rw [resolve_joinPath _ _ hn, hw₁, ← hw] at hopen
      rw [nativeFile_key env hr]
      exact hopen
  read := by
    intro h buf n w rb buf' w' hr
    refine ⟨?_, by rw [← (treeNative_image env).read (some h) buf n w, hr]⟩
    simp only [treeNative, vfsNative] at hr
    obtain ⟨o, hread, hback⟩ := nativeRead_cases hr
    simp only [treePosix] at hread
    cases hread
    exact ⟨_, Disk.read_spec env.native w.native h.fd.toNat n, hback⟩
  close := by
    intro h w err w' hc
    exact ⟨⟨env.native.Durable, treeNative_close env hc⟩,
      by rw [← (treeNative_image env).close (some h) w, hc]⟩
  opendir := by
    intro path p w r w' hn h
    refine ⟨?_, ?_, by rw [← (treeNative_image env).opendir path w, h]⟩
    · simp only [treeNative, vfsNative] at h
      obtain ⟨rfl, hw⟩ | ⟨w₁, w₂, o, hw₁, ho, hw, hr⟩ := nativeOpendir_cases (treeLibc_native env) h
      · simp only [nativeLens, hw]
        exact .fail
      · have hopen := treePosix_opendir env ho
        rw [resolve_joinPath _ _ hn, hw₁, ← hw] at hopen
        obtain ⟨rfl, rfl⟩ | ⟨ptr, dir, dirname, rfl, rfl, _⟩ := hr <;> exact hopen
    · rintro h' rfl
      simp only [treeNative, vfsNative] at h
      obtain ⟨hnone, _⟩ | ⟨_, _, _, _, _, _, hr⟩ := nativeOpendir_cases (treeLibc_native env) h
      · cases hnone
      · obtain ⟨_, hnone⟩ | ⟨ptr, dir, dirname, _, hsome, hdirname⟩ := hr
        · cases hnone
        · cases hsome
          exact ⟨path, hn, hdirname⟩
  readdir := by
    intro h p rest slot w found slot' w' hopen _ hstream hrest hr
    exact ⟨treeNative_readdir env hopen hstream hrest hr,
      by rw [← (treeNative_image env).readdir (some h) slot w, hr]⟩
  closedir := by
    intro h w err w' hc
    refine ⟨?_, by rw [← (treeNative_image env).closedir (some h) w, hc]⟩
    simp only [treeNative, vfsNative] at hc
    obtain ⟨err', w₁, hw₁, hclose, _⟩ := nativeClosedir_cases (treeLibc_native env) hc
    have := treePosix_closedir env hclose
    rw [hw₁] at this
    exact this

/-- The native tree as a target. -/
theorem treeNative_target :
    TreeTarget env.native.Durable (treeNative env) (nativeLens env) (·.image.view) where
  mkdir := by
    intro path p w err w' hn h
    refine ⟨?_, by rw [← (treeNative_image env).mkdir path w, h]⟩
    simp only [treeNative, vfsNative] at h
    obtain ⟨path', w₁, w₂, err', errno, hpath, hw₁, hm, hw, herr⟩ :=
      nativeMkdir_cases (treeLibc_native env) h
    simp only [herr]
    rcases hpath with rfl | rfl
    · simp only [treePosix] at hm
      cases hm
      simp only [nativeLens, hw, hw₁]
      exact .fail
    · have hmake := treePosix_mkdir env hm
      rw [resolve_joinPath _ _ hn, hw₁, ← hw] at hmake
      exact hmake
  open_ := by
    intro path p w r w' hn h
    refine ⟨?_, by rw [← (treeNative_image env).open_ path _ w, h]⟩
    simp only [treeNative, vfsNative] at h
    obtain ⟨rfl, hw⟩ | ⟨w₁, w₂, fd, hw₁, ho, hw, hr⟩ := nativeOpen_cases (treeLibc_native env) h
    · simp only [nativeLens, hw]
      exact .fail
    · have hopen := treePosix_openWrite env ho
      rw [resolve_joinPath _ _ hn, hw₁, ← hw] at hopen
      rw [nativeFile_key env hr]
      exact hopen
  write := by
    intro h buf n w wb w' hr
    refine ⟨?_, by rw [← (treeNative_image env).write (some h) buf n w, hr]⟩
    simp only [treeNative, vfsNative] at hr
    obtain ⟨o, hwrite, hback⟩ := nativeWrite_cases hr
    simp only [treePosix] at hwrite
    cases hwrite
    exact ⟨_, Disk.write_spec env.native w.native h.fd.toNat (buf.take n), hback⟩
  close := by
    intro h w err w' hc
    exact ⟨treeNative_close env hc, by rw [← (treeNative_image env).close (some h) w, hc]⟩

end Native

/-! ## The littlefs back end -/

section Image

variable (env : Env)

theorem treeLfs_keeps : LfsKeeps (treeLfs env) (·.native) where
  mkdir _ _ _ := rfl
  fileOpen _ _ _ _ _ := by
    simp only [treeLfs]
    split
    · rfl
    · split <;> rfl
  fileClose _ _ _ := rfl
  fileRead _ _ _ _ := rfl
  fileWrite _ _ _ _ := rfl
  dirOpen _ _ _ _ := rfl
  dirClose _ _ _ := rfl
  dirRead _ _ _ := rfl

/-- `vfs_lfs` on the image. -/
def treeImage : Vfs World Ptr Ptr := vfsLfs (treeLibc env) (treeLfs env) env.lfs

def imageLens : TreeLens World Ptr Ptr where
  view w := w.image.view
  root := []
  file h := h
  dir h := h
  opened _ _ := True

theorem resolve_names {path : CString} {p : Path} (hn : Names path p) : resolve [] path = p := by
  have := resolve_joinPath [] [] hn
  rwa [joinPath_nil, joinPath_nil, resolve_slash, List.nil_append] at this

theorem treeLfs_openRead {lfs : Option Ptr} {file : Ptr} {path : CString} {w w' : World} {err : Int}
    (h : (treeLfs env).fileOpen lfs file path (lfsFlags O_RDONLY) w = (err, w')) :
    OpenRead w.image.view (resolve [] path) (if 0 ≤ err then some file else none)
      w'.image.view := by
  have hspec := Disk.openRead_spec env.image w.image file (resolve [] path)
  have hflags : lfsFlags O_RDONLY ≠ lfsFlags (O_CREAT ||| O_TRUNC ||| O_WRONLY) := by decide
  simp only [treeLfs, if_neg hflags, if_true] at h
  cases hok : (w.image.openRead env.image file (resolve [] path)).1 <;>
  · simp only [World.onImage, Prod.map, hok, Prod.mk.injEq] at h
    obtain ⟨rfl, rfl⟩ := h
    simpa [hok] using hspec

theorem treeLfs_openWrite {lfs : Option Ptr} {file : Ptr} {path : CString} {w w' : World}
    {err : Int}
    (h : (treeLfs env).fileOpen lfs file path (lfsFlags (O_CREAT ||| O_TRUNC ||| O_WRONLY)) w =
      (err, w')) :
    OpenWrite w.image.view (resolve [] path) (if 0 ≤ err then some file else none)
      w'.image.view := by
  have hspec := Disk.openWrite_spec env.image w.image file (resolve [] path)
  simp only [treeLfs, if_true] at h
  cases hok : (w.image.openWrite env.image file (resolve [] path)).1 <;>
  · simp only [World.onImage, Prod.map, hok, Prod.mk.injEq] at h
    obtain ⟨rfl, rfl⟩ := h
    simpa [hok] using hspec

theorem treeLfs_close {lfs : Option Ptr} {file : Ptr} {w w' : World} {err : Int}
    (h : (treeLfs env).fileClose lfs file w = (err, w')) :
    Close env.image.Durable w.image.view file (err = 0) w'.image.view := by
  have hspec := Disk.close_spec env.image w.image file
  simp only [treeLfs] at h
  cases h
  simpa only [Prod.map_fst, Prod.map_snd, id_eq, decide_code (c := LFS_ERR_CORRUPT) (by decide)]
    using hspec

theorem treeLfs_dirOpen {lfs : Option Ptr} {dir : Ptr} {path : CString} {w w' : World} {err : Int}
    (h : (treeLfs env).dirOpen lfs dir path w = (err, w')) :
    OpenDir w.image.view (resolve [] path) (if err = 0 then some dir else none) w'.image.view := by
  have hspec := Disk.openDir_spec env.image w.image dir (resolve [] path)
  simp only [treeLfs] at h
  cases hok : (w.image.openDir env.image dir (resolve [] path)).1 <;>
  · simp only [World.onImage, Prod.map, hok, Prod.mk.injEq] at h
    obtain ⟨rfl, rfl⟩ := h
    simpa [hok] using hspec

theorem treeLfs_dirClose {lfs : Option Ptr} {dir : Ptr} {w w' : World} {err : Int}
    (h : (treeLfs env).dirClose lfs dir w = (err, w')) :
    CloseDir w.image.view dir w'.image.view := by
  have hspec := Disk.closeDir_spec env.image w.image dir
  simp only [treeLfs] at h
  cases h
  exact hspec

theorem treeLfs_mkdir {lfs : Option Ptr} {path : CString} {w w' : World} {err : Int}
    (h : (treeLfs env).mkdir lfs path w = (err, w')) :
    MakeDir w.image.view (resolve [] path) (err = 0 ∨ err = LFS_ERR_EXIST) w'.image.view := by
  have hspec := Disk.makeDir_spec env.image w.image (resolve [] path)
  simp only [treeLfs] at h
  cases hr : (w.image.makeDir env.image (resolve [] path)).1 <;>
  · simp only [World.onImage, Prod.map, hr, Prod.mk.injEq] at h
    obtain ⟨rfl, rfl⟩ := h
    simpa [hr, LFS_ERR_CORRUPT, LFS_ERR_EXIST] using hspec

theorem treeLfs_dirRead {lfs : Option Ptr} {dir : Ptr} {w w' : World} {err : Int} {info : LfsInfo}
    (h : (treeLfs env).dirRead lfs dir w = ((err, info), w')) :
    ∃ o, (err, info) = dirReadInfo w.image dir o ∧ ReadDir w.image.view dir o w'.image.view := by
  have hspec := Disk.readDir_spec env.image w.image dir
  have hw : w'.image = (w.image.readDir env.image dir).2 :=
    congrArg World.image (congrArg Prod.snd h).symm
  rw [← hw] at hspec
  exact ⟨_, (congrArg Prod.fst h).symm, hspec⟩

/-- The entry `lfs_dir_read` fills in for a name of the stream. -/
theorem dirReadInfo_item {d : Disk} {dir : Ptr} {p : Path} {rest : List Name}
    (hstream : d.dir dir = some ⟨p, rest⟩) {n : Name} (hn : IsDots n ∨ Proper n) {err : Int}
    {info : LfsInfo} (h : (err, info) = dirReadInfo d dir (.item n)) :
    err = LFS_ERR_CORRUPT ∨ err = 1 ∧ info.name = n ∧
      (IsDots n ∧ info.type = LFS_TYPE_DIR ∨
        Proper n ∧ ((∃ c, d.fs.get (p ++ [n]) = some (.file c)) ∧ info.type = LFS_TYPE_REG ∨
          d.fs.get (p ++ [n]) = some .dir ∧ info.type = LFS_TYPE_DIR)) := by
  rw [dirReadInfo, hstream, Option.bind_some] at h
  rcases hn with hn | hn
  · rw [if_pos hn] at h
    cases h
    exact .inr ⟨rfl, rfl, .inl ⟨hn, rfl⟩⟩
  · rw [if_neg (not_isDots hn)] at h
    split at h
    · cases h
      exact .inl rfl
    · rename_i hget
      cases h
      exact .inr ⟨rfl, rfl, .inr ⟨hn, .inr ⟨hget, rfl⟩⟩⟩
    · rename_i c hget
      cases h
      exact .inr ⟨rfl, rfl, .inr ⟨hn, .inl ⟨⟨c, hget⟩, rfl⟩⟩⟩

theorem treeImage_readdir {dir : Ptr} {p : Path} {rest : List Name} {slot slot' : Dirent}
    {w w' : World} {found : Bool} (hstream : w.image.dir dir = some ⟨p, rest⟩)
    (hrest : ∀ n ∈ rest, IsDots n ∨ Proper n)
    (hr : (treeImage env).readdir (some dir) slot w = ((found, slot'), w')) :
    ∃ o, ReadDir w.image.view dir o w'.image.view ∧
      ReaddirBack w.image.view.tree p o found slot' := by
  simp only [treeImage, vfsLfs] at hr
  obtain ⟨err, info, hread, hcases⟩ := lfsReaddir_cases hr
  obtain ⟨o, hinfo, hspec⟩ := treeLfs_dirRead env hread
  cases o with
  | error =>
    cases hinfo
    obtain ⟨rfl, _⟩ | ⟨_, herr, _⟩ | ⟨_, herr, _⟩ := hcases
    · exact ⟨_, hspec, .error⟩
    · cases herr
    · cases herr
  | finished =>
    cases hinfo
    obtain ⟨rfl, _⟩ | ⟨rfl, _, rfl⟩ | ⟨_, herr, _⟩ := hcases
    · exact ⟨_, readDir_dropped hspec, .error⟩
    · exact ⟨_, hspec, .finished rfl⟩
    · cases herr
  | item n =>
    have hmem : n ∈ rest := by
      cases hspec with
      | item hk _ _ _ =>
        have := hk.symm.trans hstream
        simp only [Option.some.injEq, TreeFs.Stream.mk.injEq] at this
        rw [← this.2]
        simp
    have hnul := nul_not_mem_name (hrest n hmem)
    obtain ⟨rfl, _⟩ | ⟨_, rfl, _⟩ | ⟨rfl, hpos, hlen, rfl⟩ := hcases
    · exact ⟨_, readDir_dropped hspec, .error⟩
    · obtain herr | ⟨herr, _⟩ := dirReadInfo_item hstream (hrest n hmem) hinfo <;> cases herr
    · obtain rfl | ⟨rfl, hname, htype⟩ := dirReadInfo_item hstream (hrest n hmem) hinfo
      · cases hpos
      · rw [hname] at hlen ⊢
        refine ⟨_, hspec, .item ⟨(slot.setEntry_name hlen _).trans (cstr_of_nul_not_mem hnul), ?_⟩⟩
        obtain ⟨hn, ht⟩ | ⟨hn, ⟨hc, ht⟩ | ⟨hdir, ht⟩⟩ := htype <;> rw [ht]
        · exact .inl ⟨hn, rfl⟩
        · exact .inr ⟨hn, .inl ⟨hc, rfl⟩⟩
        · exact .inr ⟨hn, .inr ⟨hdir, rfl⟩⟩

theorem treeImage_native : VfsKeeps (treeImage env) (·.native) :=
  vfsLfs_keeps (treeLibc_native env) (treeLfs_keeps env) _

theorem imageFile_key {err : Int} {file : Ptr} {r : Option Ptr}
    (h : err < 0 ∧ r = none ∨ 0 ≤ err ∧ r = some file) :
    r.map imageLens.file = if 0 ≤ err then some file else none := by
  rcases h with ⟨hneg, rfl⟩ | ⟨hpos, rfl⟩
  · rw [if_neg (by omega), Option.map_none]
  · rw [if_pos hpos, Option.map_some]
    rfl

theorem treeImage_close {h : Ptr} {w w' : World} {err : Int}
    (hc : (treeImage env).close (some h) w = (err, w')) :
    Close env.image.Durable w.image.view h (err = 0) w'.image.view := by
  simp only [treeImage, vfsLfs] at hc
  obtain ⟨err', w₁, hclose, hw, herr⟩ := lfsClose_cases (treeLibc_image env) hc
  have hspec := treeLfs_close env hclose
  simp only [← hw, ← herr] at hspec
  exact hspec

/-- The image as a source. -/
theorem treeImage_source :
    TreeSource env.image.FullReads (treeImage env) imageLens (·.native.view) where
  open_ := by
    intro path p w r w' hn h
    refine ⟨?_, by rw [← (treeImage_native env).open_ path O_RDONLY w, h]⟩
    simp only [treeImage, vfsLfs] at h
    obtain ⟨rfl, hw⟩ | ⟨file, w₁, w₂, err, hw₁, ho, hw, hr⟩ := lfsOpen_cases (treeLibc_image env) h
    · simp only [imageLens, hw]
      exact .fail
    · have hopen := treeLfs_openRead env ho
      rw [resolve_names hn, hw₁, ← hw] at hopen
      rw [imageFile_key hr]
      exact hopen
  read := by
    intro h buf n w rb buf' w' hr
    refine ⟨?_, by rw [← (treeImage_native env).read (some h) buf n w, hr]⟩
    simp only [treeImage, vfsLfs] at hr
    obtain ⟨o, hread, hback⟩ := lfsRead_cases hr
    simp only [treeLfs] at hread
    cases hread
    exact ⟨_, Disk.read_spec env.image w.image h n, hback⟩
  close := by
    intro h w err w' hc
    exact ⟨⟨env.image.Durable, treeImage_close env hc⟩,
      by rw [← (treeImage_native env).close (some h) w, hc]⟩
  opendir := by
    intro path p w r w' hn h
    refine ⟨?_, fun _ _ => trivial, by rw [← (treeImage_native env).opendir path w, h]⟩
    simp only [treeImage, vfsLfs] at h
    obtain ⟨rfl, hw⟩ | ⟨dir, w₁, w₂, err, hw₁, ho, hw, hr⟩ :=
      lfsOpendir_cases (treeLibc_image env) h
    · simp only [imageLens, hw]
      exact .fail
    · have hopen := treeLfs_dirOpen env ho
      rw [resolve_names hn, hw₁, ← hw] at hopen
      obtain ⟨herr, rfl⟩ | ⟨herr, rfl⟩ := hr
      · rw [if_neg herr] at hopen
        exact hopen
      · rw [if_pos herr] at hopen
        exact hopen
  readdir := by
    intro h p rest slot w found slot' w' _ _ hstream hrest hr
    exact ⟨treeImage_readdir env hstream hrest hr,
      by rw [← (treeImage_native env).readdir (some h) slot w, hr]⟩
  closedir := by
    intro h w err w' hc
    refine ⟨?_, by rw [← (treeImage_native env).closedir (some h) w, hc]⟩
    simp only [treeImage, vfsLfs] at hc
    obtain ⟨err', w₁, hclose, hw, _⟩ := lfsClosedir_cases (treeLibc_image env) hc
    have := treeLfs_dirClose env hclose
    rw [← hw] at this
    exact this

/-- The image as a target. -/
theorem treeImage_target :
    TreeTarget env.image.Durable (treeImage env) imageLens (·.native.view) where
  mkdir := by
    intro path p w err w' hn h
    refine ⟨?_, by rw [← (treeImage_native env).mkdir path w, h]⟩
    simp only [treeImage, vfsLfs] at h
    obtain ⟨err', hm, herr⟩ := lfsMkdir_cases h
    have hmake := treeLfs_mkdir env hm
    rw [resolve_names hn] at hmake
    simp only [herr]
    exact hmake
  open_ := by
    intro path p w r w' hn h
    refine ⟨?_, by rw [← (treeImage_native env).open_ path _ w, h]⟩
    simp only [treeImage, vfsLfs] at h
    obtain ⟨rfl, hw⟩ | ⟨file, w₁, w₂, err, hw₁, ho, hw, hr⟩ := lfsOpen_cases (treeLibc_image env) h
    · simp only [imageLens, hw]
      exact .fail
    · have hopen := treeLfs_openWrite env ho
      rw [resolve_names hn, hw₁, ← hw] at hopen
      rw [imageFile_key hr]
      exact hopen
  write := by
    intro h buf n w wb w' hr
    refine ⟨?_, by rw [← (treeImage_native env).write (some h) buf n w, hr]⟩
    simp only [treeImage, vfsLfs] at hr
    obtain ⟨o, hwrite, hback⟩ := lfsWrite_cases hr
    simp only [treeLfs] at hwrite
    cases hwrite
    exact ⟨_, Disk.write_spec env.image w.image h (buf.take n), hback⟩
  close := by
    intro h w err w' hc
    exact ⟨treeImage_close env hc, by rw [← (treeImage_native env).close (some h) w, hc]⟩

end Image

/-! ## Both directions -/

/-- Creating an image: from the native tree to littlefs. -/
theorem create_env (env : Env) : TreeEnv env.native.FullReads env.image.Durable (treeLibc env)
    (treeNative env) (treeImage env) (nativeLens env) imageLens where
  source := treeNative_source env
  target := treeImage_target env
  source_libc := ⟨fun _ _ => rfl, fun _ _ => rfl⟩
  target_libc := ⟨fun _ _ => rfl, fun _ _ => rfl⟩

/-- Extracting an image: from littlefs to the native tree. -/
theorem extract_env (env : Env) : TreeEnv env.image.FullReads env.native.Durable (treeLibc env)
    (treeImage env) (treeNative env) imageLens (nativeLens env) where
  source := treeImage_source env
  target := treeNative_target env
  source_libc := ⟨fun _ _ => rfl, fun _ _ => rfl⟩
  target_libc := ⟨fun _ _ => rfl, fun _ _ => rfl⟩

end LfsTool
