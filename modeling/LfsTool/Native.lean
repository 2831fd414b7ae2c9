import LfsTool.Vfs

/-!
# LfsTool.Native

The native back end, `vfs_native.c`, over the system calls it makes (`Posix`). A handle carries what
the object behind the pointer holds; the object itself is the address `ptr` it was allocated at.

`nativeOpen`, `nativeClose` and so on are the `vfs_open`, `vfs_close` of that file, with
`contextPath` for `context->path`; `vfsNative` is `m_vfs_native` after `vfs_native_get`.
-/

namespace LfsTool

/-- What `readdir` returns: NULL with `errno` set, NULL without, or an entry with its `d_name`. -/
inductive ReaddirResult where
  | error
  | endOfDir
  | entry (dName : CString)
  deriving DecidableEq

/-- The file type in `st_mode`. -/
inductive FileMode where
  | reg
  | dir
  | other
  deriving DecidableEq

abbrev EEXIST : Nat := 17

/-- The system calls. A `read` or a `write` that returns -1 is `none`. -/
structure Posix (σ : Type) where
  open_ : CString → Nat → σ → Int × σ
  close : Int → σ → Int × σ
  read : Int → Nat → σ → Option (List UInt8) × σ
  write : Int → List UInt8 → σ → Option Nat × σ
  opendir : CString → σ → Option Ptr × σ
  closedir : Ptr → σ → Int × σ
  readdir : Ptr → σ → ReaddirResult × σ
  stat : CString → σ → Option FileMode × σ
  /-- The value returned and `errno`; the path may be NULL. -/
  mkdir : Option CString → σ → (Int × Nat) × σ

/-- The system calls leave what `f` shows alone. -/
structure PosixKeeps {σ α : Type} (px : Posix σ) (f : σ → α) : Prop where
  open_ : ∀ path flags w, f (px.open_ path flags w).2 = f w
  close : ∀ fd w, f (px.close fd w).2 = f w
  read : ∀ fd n w, f (px.read fd n w).2 = f w
  write : ∀ fd data w, f (px.write fd data w).2 = f w
  opendir : ∀ path w, f (px.opendir path w).2 = f w
  closedir : ∀ dir w, f (px.closedir dir w).2 = f w
  readdir : ∀ dir w, f (px.readdir dir w).2 = f w
  stat : ∀ path w, f (px.stat path w).2 = f w
  mkdir : ∀ path w, f (px.mkdir path w).2 = f w

structure NativeFile where
  ptr : Ptr
  fd : Int

structure NativeDir where
  ptr : Ptr
  dir : Ptr
  dirname : HeapString

abbrev sizeofVfsFile : Nat := 4
abbrev sizeofVfsDir : Nat := 16

section Native

variable {σ : Type} (libc : Libc σ) (px : Posix σ) (contextPath : CString)

def nativeOpen (pathname : CString) (flags : Nat) (w : σ) : Option NativeFile × σ :=
  match libc.malloc sizeofVfsFile w with
  | (none, w) => (none, libc.free none (libc.free none w))
  | (some file, w) =>
    match appendDirAlloc libc contextPath pathname w with
    | (none, w) => (none, libc.free (some file) (libc.free none w))
    | (some path, w) =>
      let (fd, w) := px.open_ path.str flags w
      if fd ≥ 0 then (some ⟨file, fd⟩, libc.free (some path.ptr) w)
      else (none, libc.free (some file) (libc.free (some path.ptr) w))

def nativeClose (fd : Option NativeFile) (w : σ) : Int × σ :=
  match fd with
  | none => (-1, w)
  | some file =>
    let (err, w) := px.close file.fd w
    if err = 0 then (0, libc.free (some file.ptr) w) else (-1, w)

def nativeRead (fd : Option NativeFile) (buf : List UInt8) (count : Nat) (w : σ) :
    (Int × List UInt8) × σ :=
  match fd with
  | none => ((-1, buf), w)
  | some file =>
    match px.read file.fd count w with
    | (none, w) => ((-1, buf), w)
    | (some bytes, w) => ((bytes.length, bytes ++ buf.drop bytes.length), w)

def nativeWrite (fd : Option NativeFile) (buf : List UInt8) (count : Nat) (w : σ) : Int × σ :=
  match fd with
  | none => (-1, w)
  | some file =>
    match px.write file.fd (buf.take count) w with
    | (none, w) => (-1, w)
    | (some n, w) => (n, w)

def nativeOpendir (pathname : CString) (w : σ) : Option NativeDir × σ :=
  match libc.malloc sizeofVfsDir w with
  | (none, w) => (none, libc.free none (libc.free none w))
  | (some vfsDir, w) =>
    match appendDirAlloc libc contextPath pathname w with
    | (none, w) => (none, libc.free (some vfsDir) (libc.free none w))
    | (some path, w) =>
      match px.opendir path.str w with
      | (none, w) => (none, libc.free (some vfsDir) (libc.free (some path.ptr) w))
      | (some dir, w) => (some ⟨vfsDir, dir, path⟩, w)

/-- The directory name is freed, the `struct vfs_dir` is not. -/
def nativeClosedir (dir : Option NativeDir) (w : σ) : Int × σ :=
  match dir with
  | none => (-1, w)
  | some vfsDir =>
    let (err, w) := px.closedir vfsDir.dir (libc.free (some vfsDir.dirname.ptr) w)
    if err = 0 then (0, w) else (-1, w)

/-- The static entry is written only where the code gets that far. -/
def nativeReaddir (dir : Option NativeDir) (vfsDirent : Dirent) (w : σ) : (Bool × Dirent) × σ :=
  match dir with
  | none => ((false, vfsDirent), libc.free none w)
  | some vfsDir =>
    match px.readdir vfsDir.dir w with
    | (.error, w) => ((false, vfsDirent), libc.free none w)
    | (.endOfDir, w) =>
      ((true, vfsDirent.setEnd), libc.free none w)
    | (.entry dName, w) =>
      match appendDirAlloc libc vfsDir.dirname.str dName w with
      | (none, w) => ((false, vfsDirent), libc.free none w)
      | (some buf, w) =>
        match px.stat buf.str w with
        | (none, w) => ((false, vfsDirent), libc.free (some buf.ptr) w)
        | (some mode, w) =>
          if ¬(mode = .reg ∨ mode = .dir) then ((false, vfsDirent), libc.free (some buf.ptr) w)
          else if ¬(dName.length < VFS_MAX_NAME_LEN) then
            ((false, vfsDirent), libc.free (some buf.ptr) w)
          else
            ((true, vfsDirent.setEntry dName (if mode = .reg then .file else .dir)),
              libc.free (some buf.ptr) w)

/-- `mkdir` is called with whatever `append_dir_alloc` returned. -/
def nativeMkdir (pathname : CString) (w : σ) : Int × σ :=
  let (path, w) := appendDirAlloc libc contextPath pathname w
  let ((err, errno), w) := px.mkdir (path.map (·.str)) w
  let result := if err = 0 ∨ errno = EEXIST then 0 else -1
  (result, libc.free (path.map (·.ptr)) w)

/-- `m_vfs_native` -/
def vfsNative : Vfs σ NativeFile NativeDir where
  open_ := nativeOpen libc px contextPath
  close := nativeClose libc px
  read := nativeRead px
  write := nativeWrite px
  opendir := nativeOpendir libc px contextPath
  closedir := nativeClosedir libc px
  readdir := nativeReaddir libc px
  mkdir := nativeMkdir libc px contextPath

/-! What each function does, up to the allocations it makes. -/

section Cases

variable {libc px contextPath} {α : Type} {f : σ → α} {w w' : σ}

theorem nativeOpen_cases (hl : LibcKeeps libc f) {pathname : CString} {flags : Nat}
    {r : Option NativeFile} (h : nativeOpen libc px contextPath pathname flags w = (r, w')) :
    r = none ∧ f w' = f w ∨
      ∃ w₁ w₂ fd, f w₁ = f w ∧ px.open_ (joinPath contextPath pathname) flags w₁ = (fd, w₂) ∧
        f w' = f w₂ ∧ (fd < 0 ∧ r = none ∨ 0 ≤ fd ∧ ∃ ptr, r = some ⟨ptr, fd⟩) := by
  have hm := hl.malloc sizeofVfsFile w
  simp only [nativeOpen] at h
  split at h
  · rename_i w₁ h₁
    cases h
    rw [h₁] at hm
    exact .inl ⟨rfl, by rw [hl.free, hl.free, hm]⟩
  · rename_i file w₁ h₁
    rw [h₁] at hm
    have ha := hl.append contextPath pathname w₁
    split at h
    · rename_i w₂ h₂
      cases h
      rw [h₂] at ha
      exact .inl ⟨rfl, by rw [hl.free, hl.free, ha, hm]⟩
    · rename_i path w₂ h₂
      rw [h₂] at ha
      rw [appendDirAlloc_some h₂] at h
      refine .inr ⟨w₂, (px.open_ (joinPath contextPath pathname) flags w₂).2, _, ha.trans hm, rfl, ?_⟩
      split at h
      · rename_i hfd
        cases h
        exact ⟨hl.free _ _, .inr ⟨hfd, file, rfl⟩⟩
      · rename_i hfd
        cases h
        exact ⟨by rw [hl.free, hl.free], .inl ⟨by omega, rfl⟩⟩

theorem nativeClose_cases (hl : LibcKeeps libc f) {file : NativeFile} {r : Int}
    (h : nativeClose libc px (some file) w = (r, w')) :
    ∃ err w₁, px.close file.fd w = (err, w₁) ∧ f w' = f w₁ ∧ (r = 0 ↔ err = 0) := by
  refine ⟨(px.close file.fd w).1, (px.close file.fd w).2, rfl, ?_⟩
  simp only [nativeClose] at h
  split at h
  · rename_i herr
    cases h
    exact ⟨hl.free _ _, by simp [herr]⟩
  · rename_i herr
    cases h
    exact ⟨rfl, by simp [herr]⟩

theorem nativeRead_cases {file : NativeFile} {buf buf' : List UInt8} {count : Nat} {rb : Int}
    (h : nativeRead px (some file) buf count w = ((rb, buf'), w')) :
    ∃ o, px.read file.fd count w = (o, w') ∧ ReadBack buf o rb buf' := by
  simp only [nativeRead] at h
  split at h
  · rename_i w₁ h₁
    cases h
    exact ⟨none, h₁, .error (by decide)⟩
  · rename_i bytes w₁ h₁
    cases h
    exact ⟨some bytes, h₁, .bytes⟩

theorem nativeWrite_cases {file : NativeFile} {buf : List UInt8} {count : Nat} {wb : Int}
    (h : nativeWrite px (some file) buf count w = (wb, w')) :
    ∃ o, px.write file.fd (buf.take count) w = (o, w') ∧ WriteBack o wb := by
  simp only [nativeWrite] at h
  split at h
  · rename_i w₁ h₁
    cases h
    exact ⟨none, h₁, .error (by decide)⟩
  · rename_i n w₁ h₁
    cases h
    exact ⟨some n, h₁, .stored⟩

theorem nativeOpendir_cases (hl : LibcKeeps libc f) {pathname : CString} {r : Option NativeDir}
    (h : nativeOpendir libc px contextPath pathname w = (r, w')) :
    r = none ∧ f w' = f w ∨
      ∃ w₁ w₂ o, f w₁ = f w ∧ px.opendir (joinPath contextPath pathname) w₁ = (o, w₂) ∧
        f w' = f w₂ ∧ (o = none ∧ r = none ∨ ∃ ptr dir dirname, o = some dir ∧
          r = some ⟨ptr, dir, dirname⟩ ∧ dirname.str = joinPath contextPath pathname) := by
  have hm := hl.malloc sizeofVfsDir w
  simp only [nativeOpendir] at h
  split at h
  · rename_i w₁ h₁
    cases h
    rw [h₁] at hm
    exact .inl ⟨rfl, by rw [hl.free, hl.free, hm]⟩
  · rename_i vfsDir w₁ h₁
    rw [h₁] at hm
    have ha := hl.append contextPath pathname w₁
    split at h
    · rename_i w₂ h₂
      cases h
      rw [h₂] at ha
      exact .inl ⟨rfl, by rw [hl.free, hl.free, ha, hm]⟩
    · rename_i path w₂ h₂
      rw [h₂] at ha
      have hpath := appendDirAlloc_some h₂
      refine .inr ⟨w₂, (px.opendir path.str w₂).2, (px.opendir path.str w₂).1, ha.trans hm,
        by rw [hpath], ?_⟩
      split at h
      · rename_i w₃ h₃
        cases h
        rw [h₃]
        exact ⟨by rw [hl.free, hl.free], .inl ⟨rfl, rfl⟩⟩
      · rename_i dir w₃ h₃
        cases h
        rw [h₃]
        exact ⟨rfl, .inr ⟨vfsDir, dir, path, rfl, rfl, hpath⟩⟩

theorem nativeClosedir_cases (hl : LibcKeeps libc f) {dir : NativeDir} {r : Int}
    (h : nativeClosedir libc px (some dir) w = (r, w')) :
    ∃ err w₁, f w₁ = f w ∧ px.closedir dir.dir w₁ = (err, w') ∧ (r = 0 ↔ err = 0) := by
  refine ⟨(px.closedir dir.dir (libc.free (some dir.dirname.ptr) w)).1,
    libc.free (some dir.dirname.ptr) w, hl.free _ _, ?_⟩
  simp only [nativeClosedir] at h
  split at h
  · rename_i herr
    cases h
    exact ⟨rfl, by simp [herr]⟩
  · rename_i herr
    cases h
    exact ⟨rfl, by simp [herr]⟩

theorem nativeReaddir_cases (hl : LibcKeeps libc f) {dir : NativeDir} {slot slot' : Dirent}
    {found : Bool} (h : nativeReaddir libc px (some dir) slot w = ((found, slot'), w')) :
    ∃ o w₁, px.readdir dir.dir w = (o, w₁) ∧
      (o = .error ∧ found = false ∧ f w' = f w₁ ∨
        o = .endOfDir ∧ found = true ∧ slot' = slot.setEnd ∧ f w' = f w₁ ∨
        ∃ dName, o = .entry dName ∧
          (found = false ∧ f w' = f w₁ ∨
            ∃ w₂ w₃ mode, f w₂ = f w₁ ∧ px.stat (joinPath dir.dirname.str dName) w₂ = (mode, w₃) ∧
              f w' = f w₃ ∧
              (found = false ∨ found = true ∧ dName.length < VFS_MAX_NAME_LEN ∧
                (mode = some .reg ∧ slot' = slot.setEntry dName .file ∨
                  mode = some .dir ∧ slot' = slot.setEntry dName .dir)))) := by
  refine ⟨(px.readdir dir.dir w).1, (px.readdir dir.dir w).2, rfl, ?_⟩
  simp only [nativeReaddir] at h
  split at h
  · rename_i w₁ h₁
    cases h
    rw [h₁]
    exact .inl ⟨rfl, rfl, hl.free _ _⟩
  · rename_i w₁ h₁
    cases h
    rw [h₁]
    exact .inr (.inl ⟨rfl, rfl, rfl, hl.free _ _⟩)
  · rename_i dName w₁ h₁
    rw [h₁]
    refine .inr (.inr ⟨dName, rfl, ?_⟩)
    have ha := hl.append dir.dirname.str dName w₁
    split at h
    · rename_i w₂ h₂
      cases h
      rw [h₂] at ha
      exact .inl ⟨rfl, by rw [hl.free, ha]⟩
    · rename_i buf w₂ h₂
      rw [h₂] at ha
      rw [appendDirAlloc_some h₂] at h
      refine .inr ⟨w₂, (px.stat (joinPath dir.dirname.str dName) w₂).2,
        (px.stat (joinPath dir.dirname.str dName) w₂).1, ha, rfl, ?_⟩
      split at h
      · rename_i w₃ h₃
        cases h
        rw [h₃]
        exact ⟨hl.free _ _, .inl rfl⟩
      · rename_i mode w₃ h₃
        rw [h₃]
        split at h
        · cases h
          exact ⟨hl.free _ _, .inl rfl⟩
        · rename_i hmode
          split at h
          · cases h
            exact ⟨hl.free _ _, .inl rfl⟩
          · rename_i hlen
            cases h
            refine ⟨hl.free _ _, .inr ⟨rfl, not_not.mp hlen, ?_⟩⟩
            rcases not_not.mp hmode with rfl | rfl
            · exact .inl ⟨rfl, rfl⟩
            · exact .inr ⟨rfl, rfl⟩

theorem nativeMkdir_cases (hl : LibcKeeps libc f) {pathname : CString} {r : Int}
    (h : nativeMkdir libc px contextPath pathname w = (r, w')) :
    ∃ path w₁ w₂ err errno, (path = none ∨ path = some (joinPath contextPath pathname)) ∧
      f w₁ = f w ∧ px.mkdir path w₁ = ((err, errno), w₂) ∧ f w' = f w₂ ∧
      (r = 0 ↔ err = 0 ∨ errno = EEXIST) := by
  have ha := hl.append contextPath pathname w
  simp only [nativeMkdir] at h
  cases happ : appendDirAlloc libc contextPath pathname w with
  | mk path w₁ =>
    rw [happ] at h ha
    cases h
    refine ⟨path.map (·.str), w₁, _, _, _, ?_, ha, rfl, hl.free _ _, by split <;> simp_all⟩
    cases path with
    | none => exact .inl rfl
    | some path => exact .inr (by rw [Option.map_some, appendDirAlloc_some happ])

/-! What each function leaves alone. -/

theorem nativeOpen_keeps (hl : LibcKeeps libc f) {pathname : CString} {flags : Nat}
    (h : ∀ w, f (px.open_ (joinPath contextPath pathname) flags w).2 = f w) (w : σ) :
    f (nativeOpen libc px contextPath pathname flags w).2 = f w := by
  obtain ⟨_, hw⟩ | ⟨w₁, w₂, fd, hw₁, ho, hw, _⟩ := nativeOpen_cases hl (Prod.eta _).symm
  · exact hw
  · have hcall := h w₁
    rw [ho] at hcall
    exact hw.trans (hcall.trans hw₁)

theorem nativeClose_keeps (hl : LibcKeeps libc f) {file : NativeFile}
    (h : f (px.close file.fd w).2 = f w) : f (nativeClose libc px (some file) w).2 = f w := by
  obtain ⟨err, w₁, hc, hw, _⟩ := nativeClose_cases hl (Prod.eta _).symm
  rw [hc] at h
  exact hw.trans h

theorem nativeRead_keeps {file : NativeFile} {buf : List UInt8} {count : Nat}
    (h : f (px.read file.fd count w).2 = f w) :
    f (nativeRead px (some file) buf count w).2 = f w := by
  obtain ⟨o, hr, _⟩ := nativeRead_cases (Prod.eta _).symm
  rwa [hr] at h

theorem nativeWrite_keeps {file : NativeFile} {buf : List UInt8} {count : Nat}
    (h : f (px.write file.fd (buf.take count) w).2 = f w) :
    f (nativeWrite px (some file) buf count w).2 = f w := by
  obtain ⟨o, hr, _⟩ := nativeWrite_cases (Prod.eta _).symm
  rwa [hr] at h

theorem nativeOpendir_keeps (hl : LibcKeeps libc f) {pathname : CString}
    (h : ∀ w, f (px.opendir (joinPath contextPath pathname) w).2 = f w) (w : σ) :
    f (nativeOpendir libc px contextPath pathname w).2 = f w := by
  obtain ⟨_, hw⟩ | ⟨w₁, w₂, o, hw₁, ho, hw, _⟩ := nativeOpendir_cases hl (Prod.eta _).symm
  · exact hw
  · have hcall := h w₁
    rw [ho] at hcall
    exact hw.trans (hcall.trans hw₁)

theorem nativeClosedir_keeps (hl : LibcKeeps libc f) {dir : NativeDir}
    (h : ∀ w, f (px.closedir dir.dir w).2 = f w) (w : σ) :
    f (nativeClosedir libc px (some dir) w).2 = f w := by
  obtain ⟨err, w₁, hw₁, hc, _⟩ := nativeClosedir_cases hl (Prod.eta _).symm
  have hcall := h w₁
  rw [hc] at hcall
  exact hcall.trans hw₁

theorem nativeReaddir_keeps (hl : LibcKeeps libc f) {dir : NativeDir} {slot : Dirent}
    (h : ∀ w, f (px.readdir dir.dir w).2 = f w) (hs : ∀ path w, f (px.stat path w).2 = f w) (w : σ) :
    f (nativeReaddir libc px (some dir) slot w).2 = f w := by
  obtain ⟨o, w₁, hr, hcases⟩ := nativeReaddir_cases hl (Prod.eta _).symm
  have hw₁ := h w
  rw [hr] at hw₁
  obtain ⟨_, _, hw⟩ | ⟨_, _, _, hw⟩ | ⟨dName, _, ⟨_, hw⟩ | ⟨w₂, w₃, mode, hw₂, hstat, hw, _⟩⟩ := hcases
  · exact hw.trans hw₁
  · exact hw.trans hw₁
  · exact hw.trans hw₁
  · have hcall := hs (joinPath dir.dirname.str dName) w₂
    rw [hstat] at hcall
    exact hw.trans (hcall.trans (hw₂.trans hw₁))

theorem nativeMkdir_keeps (hl : LibcKeeps libc f) {pathname : CString}
    (hnone : ∀ w, f (px.mkdir none w).2 = f w)
    (h : ∀ w, f (px.mkdir (some (joinPath contextPath pathname)) w).2 = f w) (w : σ) :
    f (nativeMkdir libc px contextPath pathname w).2 = f w := by
  obtain ⟨path, w₁, w₂, err, errno, hpath, hw₁, hm, hw, _⟩ := nativeMkdir_cases hl (Prod.eta _).symm
  have hcall : f (px.mkdir path w₁).2 = f w₁ := by
    rcases hpath with rfl | rfl
    · exact hnone w₁
    · exact h w₁
  rw [hm] at hcall
  exact hw.trans (hcall.trans hw₁)

end Cases

/-- The back end leaves alone what the allocator and the system calls leave alone. -/
theorem vfsNative_keeps {α : Type} {libc : Libc σ} {px : Posix σ} {f : σ → α}
    (hl : LibcKeeps libc f) (hp : PosixKeeps px f) (contextPath : CString) :
    VfsKeeps (vfsNative libc px contextPath) f where
  open_ _ flags := nativeOpen_keeps hl (hp.open_ _ flags)
  close
    | none, _ => rfl
    | some file, w => nativeClose_keeps hl (hp.close file.fd w)
  read
    | none, _, _, _ => rfl
    | some file, _, n, w => nativeRead_keeps (hp.read file.fd n w)
  write
    | none, _, _, _ => rfl
    | some file, buf, n, w => nativeWrite_keeps (hp.write file.fd (buf.take n) w)
  opendir _ := nativeOpendir_keeps hl (hp.opendir _)
  closedir
    | none, _ => rfl
    | some dir, w => nativeClosedir_keeps hl (hp.closedir dir.dir) w
  readdir
    | none, _, _ => hl.free _ _
    | some dir, _, w => nativeReaddir_keeps hl (hp.readdir dir.dir) hp.stat w
  mkdir _ := nativeMkdir_keeps hl (hp.mkdir none) (hp.mkdir _)

end Native

end LfsTool
