import LfsTool.Vfs

/-!
# LfsTool.Lfs

The littlefs back end: the operations of `vfs_lfs.c` on an image, over the functions of littlefs they
call (`Lfs`). A file or directory handle is the address of the `lfs_file_t` or `lfs_dir_t`, whose
contents belong to littlefs.

`lfsOpen`, `lfsClose` and so on are the `vfs_open`, `vfs_close` of that file, with `lfs` for
`vfs->opaque`; `vfsLfs` is `vfs_lfs`. `lfsMount` returns the new `vfs->opaque` too.
-/

namespace LfsTool

/-! ## `lfs.h` -/

abbrev LFS_O_RDONLY : Nat := 1
abbrev LFS_O_WRONLY : Nat := 2
abbrev LFS_O_RDWR : Nat := 3
abbrev LFS_O_CREAT : Nat := 0x0100
abbrev LFS_O_TRUNC : Nat := 0x0400
abbrev LFS_O_APPEND : Nat := 0x0800

abbrev LFS_ERR_NOENT : Int := -2
abbrev LFS_ERR_NOMEM : Int := -12
abbrev LFS_ERR_EXIST : Int := -17
abbrev LFS_ERR_NOSPC : Int := -28
abbrev LFS_ERR_CORRUPT : Int := -84

abbrev LFS_TYPE_REG : Nat := 1
abbrev LFS_TYPE_DIR : Nat := 2

/-- `struct lfs_info` without `size`. -/
structure LfsInfo where
  type : Nat
  name : CString
  deriving DecidableEq

/-- The numbers of `struct lfs_config`. The four callbacks are `fs_read`, `fs_prog`, `fs_erase` and
`fs_sync`; the optional static buffers stay NULL. -/
structure LfsConfig where
  readSize : UInt32
  progSize : UInt32
  blockSize : UInt32
  blockCount : UInt32
  blockCycles : Int
  cacheSize : UInt32
  lookaheadSize : UInt32
  nameMax : UInt32
  fileMax : UInt32
  attrMax : UInt32
  deriving DecidableEq

/-- The littlefs functions. A negative result of a read or a write is `none`. -/
structure Lfs (σ : Type) where
  format : LfsConfig → σ → Int × σ
  mount : Ptr → LfsConfig → σ → Int × σ
  unmount : Option Ptr → σ → Int × σ
  mkdir : Option Ptr → CString → σ → Int × σ
  fileOpen : Option Ptr → Ptr → CString → Nat → σ → Int × σ
  fileClose : Option Ptr → Ptr → σ → Int × σ
  fileRead : Option Ptr → Ptr → Nat → σ → Option (List UInt8) × σ
  fileWrite : Option Ptr → Ptr → List UInt8 → σ → Option Nat × σ
  dirOpen : Option Ptr → Ptr → CString → σ → Int × σ
  dirClose : Option Ptr → Ptr → σ → Int × σ
  /-- Positive with an entry, 0 at the end of the directory, or negative. -/
  dirRead : Option Ptr → Ptr → σ → (Int × LfsInfo) × σ

/-- The file operations of littlefs leave what `f` shows alone. -/
structure LfsKeeps {σ α : Type} (lf : Lfs σ) (f : σ → α) : Prop where
  mkdir : ∀ lfs path w, f (lf.mkdir lfs path w).2 = f w
  fileOpen : ∀ lfs file path flags w, f (lf.fileOpen lfs file path flags w).2 = f w
  fileClose : ∀ lfs file w, f (lf.fileClose lfs file w).2 = f w
  fileRead : ∀ lfs file n w, f (lf.fileRead lfs file n w).2 = f w
  fileWrite : ∀ lfs file data w, f (lf.fileWrite lfs file data w).2 = f w
  dirOpen : ∀ lfs dir path w, f (lf.dirOpen lfs dir path w).2 = f w
  dirClose : ∀ lfs dir w, f (lf.dirClose lfs dir w).2 = f w
  dirRead : ∀ lfs dir w, f (lf.dirRead lfs dir w).2 = f w

abbrev sizeofLfs : Nat := 152
abbrev sizeofLfsFile : Nat := 104
abbrev sizeofLfsDir : Nat := 56

/-! ## `vfs_lfs.c` -/

/-- The flags `vfs_open` passes on, bit by bit as the code tests them. -/
def lfsFlags (flags : Nat) : Nat :=
  let lfsFlags := 0
  let lfsFlags := if flags &&& O_RDONLY ≠ 0 then lfsFlags ||| LFS_O_RDONLY else lfsFlags
  let lfsFlags := if flags &&& O_RDWR ≠ 0 then lfsFlags ||| LFS_O_RDWR else lfsFlags
  let lfsFlags := if flags &&& O_WRONLY ≠ 0 then lfsFlags ||| LFS_O_WRONLY else lfsFlags
  let lfsFlags := if flags &&& O_TRUNC ≠ 0 then lfsFlags ||| LFS_O_TRUNC else lfsFlags
  let lfsFlags := if flags &&& O_CREAT ≠ 0 then lfsFlags ||| LFS_O_CREAT else lfsFlags
  if flags &&& O_APPEND ≠ 0 then lfsFlags ||| LFS_O_APPEND else lfsFlags

section Lfs

variable {σ : Type} (libc : Libc σ) (lf : Lfs σ) (lfs : Option Ptr)

def lfsOpen (pathname : CString) (flags : Nat) (w : σ) : Option Ptr × σ :=
  match libc.malloc sizeofLfsFile w with
  | (none, w) => (none, libc.free none w)
  | (some file, w) =>
    let (err, w) := lf.fileOpen lfs file pathname (lfsFlags flags) w
    if err ≥ 0 then (some file, w) else (none, libc.free (some file) w)

def lfsClose (fd : Option Ptr) (w : σ) : Int × σ :=
  match fd with
  | none => (-1, w)
  | some file =>
    let (err, w) := lf.fileClose lfs file w
    if err = 0 then (0, libc.free (some file) w) else (-1, w)

def lfsRead (fd : Option Ptr) (buf : List UInt8) (count : Nat) (w : σ) :
    (Int × List UInt8) × σ :=
  match fd with
  | none => ((-1, buf), w)
  | some file =>
    match lf.fileRead lfs file count w with
    | (none, w) => ((-1, buf), w)
    | (some bytes, w) => ((bytes.length, bytes ++ buf.drop bytes.length), w)

def lfsWrite (fd : Option Ptr) (buf : List UInt8) (count : Nat) (w : σ) : Int × σ :=
  match fd with
  | none => (-1, w)
  | some file =>
    match lf.fileWrite lfs file (buf.take count) w with
    | (none, w) => (-1, w)
    | (some n, w) => (n, w)

def lfsOpendir (path : CString) (w : σ) : Option Ptr × σ :=
  match libc.malloc sizeofLfsDir w with
  | (none, w) => (none, libc.free none w)
  | (some dir, w) =>
    let (err, w) := lf.dirOpen lfs dir path w
    if err = 0 then (some dir, w) else (none, libc.free (some dir) w)

def lfsClosedir (dir : Option Ptr) (w : σ) : Int × σ :=
  match dir with
  | none => (-1, w)
  | some lfsDir =>
    let (err, w) := lf.dirClose lfs lfsDir w
    if err = 0 then (0, libc.free (some lfsDir) w) else (-1, w)

def lfsReaddir (dir : Option Ptr) (dirent : Dirent) (w : σ) : (Bool × Dirent) × σ :=
  match dir with
  | none => ((false, dirent), w)
  | some lfsDir =>
    let ((err, info), w) := lf.dirRead lfs lfsDir w
    if ¬(err ≥ 0) then ((false, dirent), w)
    else if err = 0 then ((true, dirent.setEnd), w)
    else if ¬(info.name.length < VFS_MAX_NAME_LEN) then ((false, dirent), w)
    else ((true, dirent.setEntry info.name (if info.type = LFS_TYPE_REG then .file else .dir)), w)

def lfsMkdir (pathname : CString) (w : σ) : Int × σ :=
  let (err, w) := lf.mkdir lfs pathname w
  if err = 0 ∨ err = LFS_ERR_EXIST then (0, w) else (-1, w)

/-- `vfs_lfs` -/
def vfsLfs : Vfs σ Ptr Ptr where
  open_ := lfsOpen libc lf lfs
  close := lfsClose libc lf lfs
  read := lfsRead lf lfs
  write := lfsWrite lf lfs
  opendir := lfsOpendir libc lf lfs
  closedir := lfsClosedir libc lf lfs
  readdir := lfsReaddir lf lfs
  mkdir := lfsMkdir lf lfs

/-! What each function does, up to the allocations it makes. -/

section Cases

variable {libc lf lfs} {α : Type} {f : σ → α} {w w' : σ}

theorem lfsOpen_cases (hl : LibcKeeps libc f) {pathname : CString} {flags : Nat} {r : Option Ptr}
    (h : lfsOpen libc lf lfs pathname flags w = (r, w')) :
    r = none ∧ f w' = f w ∨
      ∃ file w₁ w₂ err, f w₁ = f w ∧ lf.fileOpen lfs file pathname (lfsFlags flags) w₁ = (err, w₂) ∧
        f w' = f w₂ ∧ (err < 0 ∧ r = none ∨ 0 ≤ err ∧ r = some file) := by
  have hm := hl.malloc sizeofLfsFile w
  simp only [lfsOpen] at h
  split at h
  · rename_i w₁ h₁
    cases h
    rw [h₁] at hm
    exact .inl ⟨rfl, by rw [hl.free, hm]⟩
  · rename_i file w₁ h₁
    rw [h₁] at hm
    refine .inr ⟨file, w₁, (lf.fileOpen lfs file pathname (lfsFlags flags) w₁).2, _, hm, rfl, ?_⟩
    split at h
    · rename_i herr
      cases h
      exact ⟨rfl, .inr ⟨herr, rfl⟩⟩
    · rename_i herr
      cases h
      exact ⟨hl.free _ _, .inl ⟨by omega, rfl⟩⟩

theorem lfsClose_cases (hl : LibcKeeps libc f) {file : Ptr} {r : Int}
    (h : lfsClose libc lf lfs (some file) w = (r, w')) :
    ∃ err w₁, lf.fileClose lfs file w = (err, w₁) ∧ f w' = f w₁ ∧ (r = 0 ↔ err = 0) := by
  refine ⟨(lf.fileClose lfs file w).1, (lf.fileClose lfs file w).2, rfl, ?_⟩
  simp only [lfsClose] at h
  split at h
  · rename_i herr
    cases h
    exact ⟨hl.free _ _, by simp [herr]⟩
  · rename_i herr
    cases h
    exact ⟨rfl, by simp [herr]⟩

theorem lfsRead_cases {file : Ptr} {buf buf' : List UInt8} {count : Nat} {rb : Int}
    (h : lfsRead lf lfs (some file) buf count w = ((rb, buf'), w')) :
    ∃ o, lf.fileRead lfs file count w = (o, w') ∧ ReadBack buf o rb buf' := by
  simp only [lfsRead] at h
  split at h
  · rename_i w₁ h₁
    cases h
    exact ⟨none, h₁, .error (by decide)⟩
  · rename_i bytes w₁ h₁
    cases h
    exact ⟨some bytes, h₁, .bytes⟩

theorem lfsWrite_cases {file : Ptr} {buf : List UInt8} {count : Nat} {wb : Int}
    (h : lfsWrite lf lfs (some file) buf count w = (wb, w')) :
    ∃ o, lf.fileWrite lfs file (buf.take count) w = (o, w') ∧ WriteBack o wb := by
  simp only [lfsWrite] at h
  split at h
  · rename_i w₁ h₁
    cases h
    exact ⟨none, h₁, .error (by decide)⟩
  · rename_i n w₁ h₁
    cases h
    exact ⟨some n, h₁, .stored⟩

theorem lfsOpendir_cases (hl : LibcKeeps libc f) {path : CString} {r : Option Ptr}
    (h : lfsOpendir libc lf lfs path w = (r, w')) :
    r = none ∧ f w' = f w ∨
      ∃ dir w₁ w₂ err, f w₁ = f w ∧ lf.dirOpen lfs dir path w₁ = (err, w₂) ∧ f w' = f w₂ ∧
        (err ≠ 0 ∧ r = none ∨ err = 0 ∧ r = some dir) := by
  have hm := hl.malloc sizeofLfsDir w
  simp only [lfsOpendir] at h
  split at h
  · rename_i w₁ h₁
    cases h
    rw [h₁] at hm
    exact .inl ⟨rfl, by rw [hl.free, hm]⟩
  · rename_i dir w₁ h₁
    rw [h₁] at hm
    refine .inr ⟨dir, w₁, (lf.dirOpen lfs dir path w₁).2, _, hm, rfl, ?_⟩
    split at h
    · rename_i herr
      cases h
      exact ⟨rfl, .inr ⟨herr, rfl⟩⟩
    · rename_i herr
      cases h
      exact ⟨hl.free _ _, .inl ⟨herr, rfl⟩⟩

theorem lfsClosedir_cases (hl : LibcKeeps libc f) {dir : Ptr} {r : Int}
    (h : lfsClosedir libc lf lfs (some dir) w = (r, w')) :
    ∃ err w₁, lf.dirClose lfs dir w = (err, w₁) ∧ f w' = f w₁ ∧ (r = 0 ↔ err = 0) := by
  refine ⟨(lf.dirClose lfs dir w).1, (lf.dirClose lfs dir w).2, rfl, ?_⟩
  simp only [lfsClosedir] at h
  split at h
  · rename_i herr
    cases h
    exact ⟨hl.free _ _, by simp [herr]⟩
  · rename_i herr
    cases h
    exact ⟨rfl, by simp [herr]⟩

theorem lfsReaddir_cases {dir : Ptr} {slot slot' : Dirent} {found : Bool}
    (h : lfsReaddir lf lfs (some dir) slot w = ((found, slot'), w')) :
    ∃ err info, lf.dirRead lfs dir w = ((err, info), w') ∧
      (found = false ∧ (err < 0 ∨ 0 < err) ∨ found = true ∧ err = 0 ∧ slot' = slot.setEnd ∨
        found = true ∧ 0 < err ∧ info.name.length < VFS_MAX_NAME_LEN ∧
          slot' = slot.setEntry info.name (if info.type = LFS_TYPE_REG then .file else .dir)) := by
  refine ⟨(lf.dirRead lfs dir w).1.1, (lf.dirRead lfs dir w).1.2, ?_⟩
  simp only [lfsReaddir] at h
  split at h
  · rename_i hneg
    cases h
    exact ⟨rfl, .inl ⟨rfl, .inl (Int.not_le.mp hneg)⟩⟩
  · rename_i hneg
    have hle := not_not.mp hneg
    split at h
    · rename_i herr
      cases h
      exact ⟨rfl, .inr (.inl ⟨rfl, herr, rfl⟩)⟩
    · rename_i herr
      have hpos := Int.lt_iff_le_and_ne.mpr ⟨hle, Ne.symm herr⟩
      split at h
      · cases h
        exact ⟨rfl, .inl ⟨rfl, .inr hpos⟩⟩
      · rename_i hlen
        cases h
        exact ⟨rfl, .inr (.inr ⟨rfl, hpos, not_not.mp hlen, rfl⟩)⟩

theorem lfsMkdir_cases {pathname : CString} {r : Int} (h : lfsMkdir lf lfs pathname w = (r, w')) :
    ∃ err, lf.mkdir lfs pathname w = (err, w') ∧ (r = 0 ↔ err = 0 ∨ err = LFS_ERR_EXIST) := by
  refine ⟨(lf.mkdir lfs pathname w).1, ?_⟩
  simp only [lfsMkdir] at h
  split at h
  · rename_i herr
    cases h
    exact ⟨rfl, by simp [herr]⟩
  · rename_i herr
    cases h
    exact ⟨rfl, by simp [herr]⟩

/-! What each function leaves alone. -/

theorem lfsOpen_keeps (hl : LibcKeeps libc f) {pathname : CString} {flags : Nat}
    (h : ∀ file w, f (lf.fileOpen lfs file pathname (lfsFlags flags) w).2 = f w) (w : σ) :
    f (lfsOpen libc lf lfs pathname flags w).2 = f w := by
  obtain ⟨_, hw⟩ | ⟨file, w₁, w₂, err, hw₁, ho, hw, _⟩ := lfsOpen_cases hl (Prod.eta _).symm
  · exact hw
  · have hcall := h file w₁
    rw [ho] at hcall
    exact hw.trans (hcall.trans hw₁)

theorem lfsClose_keeps (hl : LibcKeeps libc f) {file : Ptr}
    (h : f (lf.fileClose lfs file w).2 = f w) : f (lfsClose libc lf lfs (some file) w).2 = f w := by
  obtain ⟨err, w₁, hc, hw, _⟩ := lfsClose_cases hl (Prod.eta _).symm
  rw [hc] at h
  exact hw.trans h

theorem lfsRead_keeps {file : Ptr} {buf : List UInt8} {count : Nat}
    (h : f (lf.fileRead lfs file count w).2 = f w) :
    f (lfsRead lf lfs (some file) buf count w).2 = f w := by
  obtain ⟨o, hr, _⟩ := lfsRead_cases (Prod.eta _).symm
  rwa [hr] at h

theorem lfsWrite_keeps {file : Ptr} {buf : List UInt8} {count : Nat}
    (h : f (lf.fileWrite lfs file (buf.take count) w).2 = f w) :
    f (lfsWrite lf lfs (some file) buf count w).2 = f w := by
  obtain ⟨o, hr, _⟩ := lfsWrite_cases (Prod.eta _).symm
  rwa [hr] at h

theorem lfsOpendir_keeps (hl : LibcKeeps libc f) {path : CString}
    (h : ∀ dir w, f (lf.dirOpen lfs dir path w).2 = f w) (w : σ) :
    f (lfsOpendir libc lf lfs path w).2 = f w := by
  obtain ⟨_, hw⟩ | ⟨dir, w₁, w₂, err, hw₁, ho, hw, _⟩ := lfsOpendir_cases hl (Prod.eta _).symm
  · exact hw
  · have hcall := h dir w₁
    rw [ho] at hcall
    exact hw.trans (hcall.trans hw₁)

theorem lfsClosedir_keeps (hl : LibcKeeps libc f) {dir : Ptr}
    (h : f (lf.dirClose lfs dir w).2 = f w) : f (lfsClosedir libc lf lfs (some dir) w).2 = f w := by
  obtain ⟨err, w₁, hc, hw, _⟩ := lfsClosedir_cases hl (Prod.eta _).symm
  rw [hc] at h
  exact hw.trans h

theorem lfsReaddir_keeps {dir : Ptr} {slot : Dirent} (h : f (lf.dirRead lfs dir w).2 = f w) :
    f (lfsReaddir lf lfs (some dir) slot w).2 = f w := by
  obtain ⟨err, info, hr, _⟩ := lfsReaddir_cases (Prod.eta _).symm
  rwa [hr] at h

theorem lfsMkdir_keeps {pathname : CString} (h : f (lf.mkdir lfs pathname w).2 = f w) :
    f (lfsMkdir lf lfs pathname w).2 = f w := by
  obtain ⟨err, hm, _⟩ := lfsMkdir_cases (Prod.eta _).symm
  rwa [hm] at h

end Cases

/-- The back end leaves alone what the allocator and littlefs leave alone. -/
theorem vfsLfs_keeps {α : Type} {libc : Libc σ} {lf : Lfs σ} {f : σ → α} (hl : LibcKeeps libc f)
    (hf : LfsKeeps lf f) (lfs : Option Ptr) : VfsKeeps (vfsLfs libc lf lfs) f where
  open_ path _ := lfsOpen_keeps hl fun file => hf.fileOpen lfs file path _
  close
    | none, _ => rfl
    | some file, w => lfsClose_keeps hl (hf.fileClose lfs file w)
  read
    | none, _, _, _ => rfl
    | some file, _, n, w => lfsRead_keeps (hf.fileRead lfs file n w)
  write
    | none, _, _, _ => rfl
    | some file, buf, n, w => lfsWrite_keeps (hf.fileWrite lfs file (buf.take n) w)
  opendir path := lfsOpendir_keeps hl fun dir => hf.dirOpen lfs dir path
  closedir
    | none, _ => rfl
    | some dir, w => lfsClosedir_keeps hl (hf.dirClose lfs dir w)
  readdir
    | none, _, _ => rfl
    | some dir, _, w => lfsReaddir_keeps (hf.dirRead lfs dir w)
  mkdir path w := lfsMkdir_keeps (hf.mkdir lfs path w)

/-- `vfs_mount`: `opaque` is set to the address in every case, also to one just freed. -/
def lfsMount (cfg : LfsConfig) (w : σ) : (Int × Option Ptr) × σ :=
  match libc.malloc sizeofLfs w with
  | (none, w) => ((-1, none), libc.free none w)
  | (some lfs, w) =>
    let (result, w) := lf.mount lfs cfg w
    if result = 0 then ((0, some lfs), w) else ((-1, some lfs), libc.free (some lfs) w)

/-- `vfs_unmount` -/
def lfsUnmount (w : σ) : Int × σ :=
  let (result, w) := lf.unmount lfs w
  if result = 0 then (0, libc.free lfs w) else (-1, w)

end Lfs

end LfsTool
