import LfsTool.Logged
import LfsTool.Native
import LfsTool.Lfs

/-!
# LfsTool.Recorded

Maps of worlds below the back ends: a map that takes the system calls, or the calls of littlefs, of
one world to those of another takes the back end over the one to the back end over the other.

* `vfsNative_hom`, `vfsLfs_hom`: the back ends take maps to maps.
* `Posix.recorded`, `Lfs.recorded`, `Lfs.recordedOpens`: system calls and calls of littlefs that leave
  a record.
-/

namespace LfsTool

section Hom

variable {σ σ' : Type}

structure PosixHom (f : σ' → σ) (px' : Posix σ') (px : Posix σ) : Prop where
  open_ : ∀ path flags w, px.open_ path flags (f w) = (px'.open_ path flags w).map id f
  close : ∀ fd w, px.close fd (f w) = (px'.close fd w).map id f
  read : ∀ fd n w, px.read fd n (f w) = (px'.read fd n w).map id f
  write : ∀ fd data w, px.write fd data (f w) = (px'.write fd data w).map id f
  opendir : ∀ path w, px.opendir path (f w) = (px'.opendir path w).map id f
  closedir : ∀ dir w, px.closedir dir (f w) = (px'.closedir dir w).map id f
  readdir : ∀ dir w, px.readdir dir (f w) = (px'.readdir dir w).map id f
  stat : ∀ path w, px.stat path (f w) = (px'.stat path w).map id f
  mkdir : ∀ path w, px.mkdir path (f w) = (px'.mkdir path w).map id f

/-- The file operations; `format`, `mount` and `unmount` are not part of a walk. -/
structure LfsHom (f : σ' → σ) (lf' : Lfs σ') (lf : Lfs σ) : Prop where
  mkdir : ∀ lfs path w, lf.mkdir lfs path (f w) = (lf'.mkdir lfs path w).map id f
  fileOpen : ∀ lfs file path flags w,
    lf.fileOpen lfs file path flags (f w) = (lf'.fileOpen lfs file path flags w).map id f
  fileClose : ∀ lfs file w, lf.fileClose lfs file (f w) = (lf'.fileClose lfs file w).map id f
  fileRead : ∀ lfs file n w, lf.fileRead lfs file n (f w) = (lf'.fileRead lfs file n w).map id f
  fileWrite : ∀ lfs file data w,
    lf.fileWrite lfs file data (f w) = (lf'.fileWrite lfs file data w).map id f
  dirOpen : ∀ lfs dir path w, lf.dirOpen lfs dir path (f w) = (lf'.dirOpen lfs dir path w).map id f
  dirClose : ∀ lfs dir w, lf.dirClose lfs dir (f w) = (lf'.dirClose lfs dir w).map id f
  dirRead : ∀ lfs dir w, lf.dirRead lfs dir (f w) = (lf'.dirRead lfs dir w).map id f

variable {f : σ' → σ} {libc' : Libc σ'} {libc : Libc σ} {px' : Posix σ'} {px : Posix σ}
  {lf' : Lfs σ'} {lf : Lfs σ}

open WalkState in
theorem vfsNative_hom (hl : LibcHom f libc' libc) (hp : PosixHom f px' px) (dir : CString) :
    VfsHom f (vfsNative libc' px' dir) (vfsNative libc px dir) where
  open_ path flags w := by
    simp only [vfsNative, nativeOpen, hl.malloc]
    rcases libc'.malloc sizeofVfsFile w with ⟨_ | file, w₁⟩
    · simp only [Prod.map, id_eq, hl.free]
    · simp only [Prod.map_apply, id_eq, appendDirAlloc_map hl]
      rcases appendDirAlloc libc' dir path w₁ with ⟨_ | p, w₂⟩
      · simp only [Prod.map, id_eq, hl.free]
      · simp only [Prod.map, id_eq, hp.open_]
        split <;> simp only [hl.free]
  close fd w := by
    cases fd with
    | none => rfl
    | some file =>
      simp only [vfsNative, nativeClose, hp.close, Prod.map, id_eq]
      split <;> simp only [hl.free]
  read fd buf n w := by
    cases fd with
    | none => rfl
    | some file =>
      simp only [vfsNative, nativeRead, hp.read]
      rcases px'.read file.fd n w with ⟨_ | bytes, w₁⟩ <;> rfl
  write fd buf n w := by
    cases fd with
    | none => rfl
    | some file =>
      simp only [vfsNative, nativeWrite, hp.write]
      rcases px'.write file.fd (buf.take n) w with ⟨_ | m, w₁⟩ <;> rfl
  opendir path w := by
    simp only [vfsNative, nativeOpendir, hl.malloc]
    rcases libc'.malloc sizeofVfsDir w with ⟨_ | file, w₁⟩
    · simp only [Prod.map, id_eq, hl.free]
    · simp only [Prod.map_apply, id_eq, appendDirAlloc_map hl]
      rcases appendDirAlloc libc' dir path w₁ with ⟨_ | p, w₂⟩
      · simp only [Prod.map, id_eq, hl.free]
      · simp only [Prod.map_apply, id_eq, hp.opendir]
        rcases px'.opendir p.str w₂ with ⟨_ | d, w₃⟩ <;> simp only [Prod.map, id_eq, hl.free]
  closedir d w := by
    cases d with
    | none => rfl
    | some d =>
      simp only [vfsNative, nativeClosedir, hl.free, hp.closedir, Prod.map, id_eq]
      split <;> rfl
  readdir d slot w := by
    cases d with
    | none => simp only [vfsNative, nativeReaddir, hl.free, Prod.map, id_eq]
    | some d =>
      simp only [vfsNative, nativeReaddir, hp.readdir]
      rcases px'.readdir d.dir w with ⟨_ | _ | dName, w₁⟩
      · simp only [Prod.map, id_eq, hl.free]
      · simp only [Prod.map, id_eq, hl.free]
      · simp only [Prod.map_apply, id_eq, appendDirAlloc_map hl]
        rcases appendDirAlloc libc' d.dirname.str dName w₁ with ⟨_ | p, w₂⟩
        · simp only [Prod.map, id_eq, hl.free]
        · simp only [Prod.map_apply, id_eq, hp.stat]
          rcases px'.stat p.str w₂ with ⟨_ | mode, w₃⟩
          · simp only [Prod.map, id_eq, hl.free]
          · simp only [Prod.map, id_eq, hl.free]
            split
            · rfl
            · split <;> rfl
  mkdir path w := by
    simp only [vfsNative, nativeMkdir, appendDirAlloc_map hl, hp.mkdir, hl.free, Prod.map, id_eq]

theorem vfsLfs_hom (hl : LibcHom f libc' libc) (hf : LfsHom f lf' lf) (lfs : Option Ptr) :
    VfsHom f (vfsLfs libc' lf' lfs) (vfsLfs libc lf lfs) where
  open_ path flags w := by
    simp only [vfsLfs, lfsOpen, hl.malloc]
    rcases libc'.malloc sizeofLfsFile w with ⟨_ | file, w₁⟩
    · simp only [Prod.map, id_eq, hl.free]
    · simp only [Prod.map, id_eq, hf.fileOpen]
      split <;> simp only [hl.free]
  close fd w := by
    cases fd with
    | none => rfl
    | some file =>
      simp only [vfsLfs, lfsClose, hf.fileClose, Prod.map, id_eq]
      split <;> simp only [hl.free]
  read fd buf n w := by
    cases fd with
    | none => rfl
    | some file =>
      simp only [vfsLfs, lfsRead, hf.fileRead]
      rcases lf'.fileRead lfs file n w with ⟨_ | bytes, w₁⟩ <;> rfl
  write fd buf n w := by
    cases fd with
    | none => rfl
    | some file =>
      simp only [vfsLfs, lfsWrite, hf.fileWrite]
      rcases lf'.fileWrite lfs file (buf.take n) w with ⟨_ | m, w₁⟩ <;> rfl
  opendir path w := by
    simp only [vfsLfs, lfsOpendir, hl.malloc]
    rcases libc'.malloc sizeofLfsDir w with ⟨_ | dir, w₁⟩
    · simp only [Prod.map, id_eq, hl.free]
    · simp only [Prod.map, id_eq, hf.dirOpen]
      split <;> simp only [hl.free]
  closedir d w := by
    cases d with
    | none => rfl
    | some d =>
      simp only [vfsLfs, lfsClosedir, hf.dirClose, Prod.map, id_eq]
      split <;> simp only [hl.free]
  readdir d slot w := by
    cases d with
    | none => rfl
    | some d =>
      simp only [vfsLfs, lfsReaddir, hf.dirRead, Prod.map, id_eq]
      split
      · rfl
      · split
        · rfl
        · split <;> rfl
  mkdir path w := by
    simp only [vfsLfs, lfsMkdir, hf.mkdir, Prod.map, id_eq]
    split <;> rfl

end Hom

/-! ## Calls with a record -/

section Recorded

variable {ε σ : Type}

/-- System calls that leave no record. -/
def Posix.lift (px : Posix σ) : Posix (Logged ε σ) where
  open_ path flags w := w.lift (px.open_ path flags w.sys)
  close fd w := w.lift (px.close fd w.sys)
  read fd n w := w.lift (px.read fd n w.sys)
  write fd data w := w.lift (px.write fd data w.sys)
  opendir path w := w.lift (px.opendir path w.sys)
  closedir dir w := w.lift (px.closedir dir w.sys)
  readdir dir w := w.lift (px.readdir dir w.sys)
  stat path w := w.lift (px.stat path w.sys)
  mkdir path w := w.lift (px.mkdir path w.sys)

/-- Calls of littlefs that leave no record. -/
def Lfs.lift (lf : Lfs σ) : Lfs (Logged ε σ) where
  format cfg w := w.lift (lf.format cfg w.sys)
  mount lfs cfg w := w.lift (lf.mount lfs cfg w.sys)
  unmount lfs w := w.lift (lf.unmount lfs w.sys)
  mkdir lfs path w := w.lift (lf.mkdir lfs path w.sys)
  fileOpen lfs file path flags w := w.lift (lf.fileOpen lfs file path flags w.sys)
  fileClose lfs file w := w.lift (lf.fileClose lfs file w.sys)
  fileRead lfs file n w := w.lift (lf.fileRead lfs file n w.sys)
  fileWrite lfs file data w := w.lift (lf.fileWrite lfs file data w.sys)
  dirOpen lfs dir path w := w.lift (lf.dirOpen lfs dir path w.sys)
  dirClose lfs dir w := w.lift (lf.dirClose lfs dir w.sys)
  dirRead lfs dir w := w.lift (lf.dirRead lfs dir w.sys)

/-- System calls that record each path given to `open` and `mkdir`. -/
def Posix.recorded (px : Posix σ) (ev : CString → ε) : Posix (Logged ε σ) :=
  { px.lift with
    open_ := fun path flags w => w.call (px.open_ path flags w.sys) (ev path)
    mkdir := fun path w =>
      match path with
      | none => w.lift (px.mkdir none w.sys)
      | some path => w.call (px.mkdir (some path) w.sys) (ev path) }

/-- Calls of littlefs that record each directory entry read. -/
def Lfs.recorded (lf : Lfs σ) (ev : LfsInfo → ε) : Lfs (Logged ε σ) :=
  { lf.lift with
    dirRead := fun lfs dir w =>
      let r := lf.dirRead lfs dir w.sys
      if r.1.1 > 0 then w.call r (ev r.1.2) else w.lift r }

/-- Calls of littlefs that record the state in which a file is opened. -/
def Lfs.recordedOpens (lf : Lfs σ) (ev : σ → ε) : Lfs (Logged ε σ) :=
  { lf.lift with
    fileOpen := fun lfs file path flags w =>
      w.call (lf.fileOpen lfs file path flags w.sys) (ev w.sys) }

theorem Posix.lift_hom (px : Posix σ) : PosixHom Logged.sys (px.lift : Posix (Logged ε σ)) px :=
  ⟨fun _ _ _ => rfl, fun _ _ => rfl, fun _ _ _ => rfl, fun _ _ _ => rfl, fun _ _ => rfl,
    fun _ _ => rfl, fun _ _ => rfl, fun _ _ => rfl, fun _ _ => rfl⟩

theorem Lfs.lift_hom (lf : Lfs σ) : LfsHom Logged.sys (lf.lift : Lfs (Logged ε σ)) lf :=
  ⟨fun _ _ _ => rfl, fun _ _ _ _ _ => rfl, fun _ _ _ => rfl, fun _ _ _ _ => rfl,
    fun _ _ _ _ => rfl, fun _ _ _ _ => rfl, fun _ _ _ => rfl, fun _ _ _ => rfl⟩

theorem Posix.lift_keeps (px : Posix σ) : PosixKeeps (px.lift : Posix (Logged ε σ)) Logged.log :=
  ⟨fun _ _ _ => rfl, fun _ _ => rfl, fun _ _ _ => rfl, fun _ _ _ => rfl, fun _ _ => rfl,
    fun _ _ => rfl, fun _ _ => rfl, fun _ _ => rfl, fun _ _ => rfl⟩

theorem Lfs.lift_keeps (lf : Lfs σ) : LfsKeeps (lf.lift : Lfs (Logged ε σ)) Logged.log :=
  ⟨fun _ _ _ => rfl, fun _ _ _ _ _ => rfl, fun _ _ _ => rfl, fun _ _ _ _ => rfl,
    fun _ _ _ _ => rfl, fun _ _ _ _ => rfl, fun _ _ _ => rfl, fun _ _ _ => rfl⟩

theorem Posix.lift_view {α : Type} {px : Posix σ} {g : σ → α} (h : PosixKeeps px g) :
    PosixKeeps (px.lift : Posix (Logged ε σ)) (Logged.view g) where
  open_ path flags w := congrArg (·, w.log) (h.open_ path flags w.sys)
  close fd w := congrArg (·, w.log) (h.close fd w.sys)
  read fd n w := congrArg (·, w.log) (h.read fd n w.sys)
  write fd data w := congrArg (·, w.log) (h.write fd data w.sys)
  opendir path w := congrArg (·, w.log) (h.opendir path w.sys)
  closedir d w := congrArg (·, w.log) (h.closedir d w.sys)
  readdir d w := congrArg (·, w.log) (h.readdir d w.sys)
  stat path w := congrArg (·, w.log) (h.stat path w.sys)
  mkdir path w := congrArg (·, w.log) (h.mkdir path w.sys)

theorem Posix.recorded_hom (px : Posix σ) (ev : CString → ε) :
    PosixHom Logged.sys (px.recorded ev) px where
  open_ _ _ _ := rfl
  close _ _ := rfl
  read _ _ _ := rfl
  write _ _ _ := rfl
  opendir _ _ := rfl
  closedir _ _ := rfl
  readdir _ _ := rfl
  stat _ _ := rfl
  mkdir path w := by cases path <;> rfl

theorem Lfs.recorded_hom (lf : Lfs σ) (ev : LfsInfo → ε) :
    LfsHom Logged.sys (lf.recorded ev) lf where
  mkdir _ _ _ := rfl
  fileOpen _ _ _ _ _ := rfl
  fileClose _ _ _ := rfl
  fileRead _ _ _ _ := rfl
  fileWrite _ _ _ _ := rfl
  dirOpen _ _ _ _ := rfl
  dirClose _ _ _ := rfl
  dirRead lfs dir w := by
    simp only [Lfs.recorded]
    split <;> rfl

theorem Lfs.recordedOpens_hom (lf : Lfs σ) (ev : σ → ε) :
    LfsHom Logged.sys (lf.recordedOpens ev) lf :=
  ⟨fun _ _ _ => rfl, fun _ _ _ _ _ => rfl, fun _ _ _ => rfl, fun _ _ _ _ => rfl,
    fun _ _ _ _ => rfl, fun _ _ _ _ => rfl, fun _ _ _ => rfl, fun _ _ _ => rfl⟩

end Recorded

end LfsTool
