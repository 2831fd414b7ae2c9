import LfsTool.Vfs

/-!
# LfsTool.Walk

`process_file` and `traversal` of `main.c`, over any two back ends.

The static data the functions share is explicit in `WalkState`: the buffer `m_buffer` and the static
`struct vfs_dirent` of the source back end, which every `readdir` overwrites, also one made by a
nested `traversal`. `dirent->name` and `dirent->type` are read from that slot where the code reads
them.

The loops and the recursion take fuel; `none` means the fuel ran out before the function returned.
-/

namespace LfsTool

open PathSyntax

structure WalkState (σ : Type) where
  sys : σ
  mBuffer : List UInt8
  dirent : Dirent

section Walk

variable {σ φ δ φ' δ' : Type}

/-- `sizeof(m_buffer)` -/
abbrev bufferSize : Nat := 4096

namespace WalkState

/-- The static data before its first use. -/
def start (sys : σ) : WalkState σ := ⟨sys, List.replicate bufferSize 0, .zero⟩

def openFile (vfs : Vfs σ φ δ) (path : CString) (flags : Nat) (s : WalkState σ) :
    Option φ × WalkState σ :=
  let r := vfs.open_ path flags s.sys
  (r.1, { s with sys := r.2 })

def closeFile (vfs : Vfs σ φ δ) (fd : Option φ) (s : WalkState σ) : Int × WalkState σ :=
  let r := vfs.close fd s.sys
  (r.1, { s with sys := r.2 })

/-- `vfs->read(vfs, fd, m_buffer, sizeof(m_buffer))` -/
def readBuffer (vfs : Vfs σ φ δ) (fd : Option φ) (s : WalkState σ) : Int × WalkState σ :=
  let r := vfs.read fd s.mBuffer bufferSize s.sys
  (r.1.1, { s with sys := r.2, mBuffer := r.1.2 })

/-- `vfs->write(vfs, fd, m_buffer, rb)` -/
def writeBuffer (vfs : Vfs σ φ δ) (fd : Option φ) (rb : Int) (s : WalkState σ) :
    Int × WalkState σ :=
  let r := vfs.write fd s.mBuffer rb.toNat s.sys
  (r.1, { s with sys := r.2 })

def openDir (vfs : Vfs σ φ δ) (path : CString) (s : WalkState σ) : Option δ × WalkState σ :=
  let r := vfs.opendir path s.sys
  (r.1, { s with sys := r.2 })

def closeDir (vfs : Vfs σ φ δ) (dir : Option δ) (s : WalkState σ) : Int × WalkState σ :=
  let r := vfs.closedir dir s.sys
  (r.1, { s with sys := r.2 })

/-- `vfs->readdir(vfs, dir)`, overwriting the static entry. -/
def readDir (vfs : Vfs σ φ δ) (dir : Option δ) (s : WalkState σ) : Bool × WalkState σ :=
  let r := vfs.readdir dir s.dirent s.sys
  (r.1.1, { s with sys := r.2, dirent := r.1.2 })

def makeDir (vfs : Vfs σ φ δ) (path : CString) (s : WalkState σ) : Int × WalkState σ :=
  let r := vfs.mkdir path s.sys
  (r.1, { s with sys := r.2 })

/-- `append_dir_alloc(dir, dirent->name)` -/
def entryPath (libc : Libc σ) (dir : CString) (s : WalkState σ) :
    Option HeapString × WalkState σ :=
  let r := appendDirAlloc libc dir (cstr s.dirent.name) s.sys
  (r.1, { s with sys := r.2 })

def freePath (libc : Libc σ) (path : Option HeapString) (s : WalkState σ) : WalkState σ :=
  { s with sys := libc.free (path.map (·.ptr)) s.sys }

/-! What a step says about the call it makes. -/

section Steps

variable {vfs : Vfs σ φ δ} {libc : Libc σ} {s s₁ : WalkState σ}

theorem openFile_sys {path : CString} {flags : Nat} {r : Option φ}
    (h : s.openFile vfs path flags = (r, s₁)) : vfs.open_ path flags s.sys = (r, s₁.sys) := by
  cases h; rfl

theorem closeFile_sys (vfs : Vfs σ φ δ) (fd : Option φ) (s : WalkState σ) :
    vfs.close fd s.sys = ((s.closeFile vfs fd).1, (s.closeFile vfs fd).2.sys) := rfl

theorem readBuffer_sys {fd : Option φ} {rb : Int} (h : s.readBuffer vfs fd = (rb, s₁)) :
    vfs.read fd s.mBuffer bufferSize s.sys = ((rb, s₁.mBuffer), s₁.sys) := by
  cases h; rfl

theorem writeBuffer_sys {fd : Option φ} {rb wb : Int} (h : s.writeBuffer vfs fd rb = (wb, s₁)) :
    vfs.write fd s.mBuffer rb.toNat s.sys = (wb, s₁.sys) := by
  cases h; rfl

theorem openDir_sys {path : CString} {r : Option δ} (h : s.openDir vfs path = (r, s₁)) :
    vfs.opendir path s.sys = (r, s₁.sys) := by
  cases h; rfl

theorem closeDir_sys (vfs : Vfs σ φ δ) (dir : Option δ) (s : WalkState σ) :
    vfs.closedir dir s.sys = ((s.closeDir vfs dir).1, (s.closeDir vfs dir).2.sys) := rfl

theorem readDir_sys {dir : Option δ} {found : Bool} (h : s.readDir vfs dir = (found, s₁)) :
    vfs.readdir dir s.dirent s.sys = ((found, s₁.dirent), s₁.sys) := by
  cases h; rfl

theorem makeDir_sys {path : CString} {err : Int} (h : s.makeDir vfs path = (err, s₁)) :
    vfs.mkdir path s.sys = (err, s₁.sys) := by
  cases h; rfl

/-- The path of an entry is joined from the name in the slot, which stays. -/
theorem entryPath_sys {dir : CString} {r : Option HeapString}
    (h : s.entryPath libc dir = (r, s₁)) :
    appendDirAlloc libc dir (cstr s.dirent.name) s.sys = (r, s₁.sys) ∧ s₁.dirent = s.dirent := by
  cases h; exact ⟨rfl, rfl⟩

/-! What a step leaves alone when the call it makes does. -/

variable {α : Type} {f : σ → α}

theorem openFile_keeps {path : CString} {flags : Nat} {r : Option φ}
    (hv : ∀ w, f (vfs.open_ path flags w).2 = f w) (h : s.openFile vfs path flags = (r, s₁)) :
    f s₁.sys = f s.sys := by
  cases h; exact hv _

theorem readBuffer_keeps {fd : Option φ} {rb : Int}
    (hv : f (vfs.read fd s.mBuffer bufferSize s.sys).2 = f s.sys)
    (h : s.readBuffer vfs fd = (rb, s₁)) : f s₁.sys = f s.sys := by
  cases h; exact hv

theorem writeBuffer_keeps {fd : Option φ} {rb wb : Int}
    (hv : f (vfs.write fd s.mBuffer rb.toNat s.sys).2 = f s.sys)
    (h : s.writeBuffer vfs fd rb = (wb, s₁)) : f s₁.sys = f s.sys := by
  cases h; exact hv

theorem openDir_keeps {path : CString} {r : Option δ} (hv : ∀ w, f (vfs.opendir path w).2 = f w)
    (h : s.openDir vfs path = (r, s₁)) : f s₁.sys = f s.sys := by
  cases h; exact hv _

theorem readDir_keeps {dir : Option δ} {found : Bool}
    (hv : f (vfs.readdir dir s.dirent s.sys).2 = f s.sys)
    (h : s.readDir vfs dir = (found, s₁)) : f s₁.sys = f s.sys := by
  cases h; exact hv

theorem makeDir_keeps {path : CString} {err : Int} (hv : ∀ w, f (vfs.mkdir path w).2 = f w)
    (h : s.makeDir vfs path = (err, s₁)) : f s₁.sys = f s.sys := by
  cases h; exact hv _

theorem entryPath_keeps (hl : LibcKeeps libc f) {dir : CString} {r : Option HeapString}
    (h : s.entryPath libc dir = (r, s₁)) : f s₁.sys = f s.sys := by
  cases h; exact hl.append _ _ _

end Steps

end WalkState

/-! ## `process_file` -/

section ProcessFile

variable (vfs : Vfs σ φ δ) (target : Vfs σ φ' δ')

/-- The copy loop, up to the jump to `done`. -/
def copyLoop (inn : Option φ) (out : Option φ') : Nat → WalkState σ → Option (Int × WalkState σ)
  | 0, _ => none
  | fuel + 1, s =>
    let (rb, s) := s.readBuffer vfs inn
    if rb ≥ 0 then
      let (wb, s) := s.writeBuffer target out rb
      if wb ≠ rb then some (-1, s)
      else if rb ≠ bufferSize then some (0, s)
      else copyLoop inn out fuel s
    else some (-1, s)

/-- `process_file` from the label `done` on: errors of the two closes are only printed. -/
def processFileDone (inn : Option φ) (out : Option φ') (result : Int) (s : WalkState σ) :
    Int × WalkState σ :=
  let s := if inn.isSome then (s.closeFile vfs inn).2 else s
  let s := if out.isSome then (s.closeFile target out).2 else s
  (result, s)

def processFile (fuel : Nat) (path : CString) (s : WalkState σ) : Option (Int × WalkState σ) :=
  let (out, s) := s.openFile target path (O_CREAT ||| O_TRUNC ||| O_WRONLY)
  if out.isNone then some (processFileDone vfs target none out (-1) s)
  else
    let (inn, s) := s.openFile vfs path O_RDONLY
    if inn.isNone then some (processFileDone vfs target inn out (-1) s)
    else
      match copyLoop vfs target inn out fuel s with
      | none => none
      | some (result, s) => some (processFileDone vfs target inn out result s)

end ProcessFile

/-! ## `traversal` -/

section Traversal

variable (libc : Libc σ) (vfs : Vfs σ φ δ) (target : Vfs σ φ' δ')

/-- What the loop body of `traversal` does with the entry in the static slot, whose path is `path`;
`self` is the recursive call. -/
def processEntry (self : CString → WalkState σ → Option (Int × WalkState σ)) (fuel : Nat)
    (path : CString) (s : WalkState σ) : Option (Int × WalkState σ) :=
  if s.dirent.type = .file then processFile vfs target fuel path s
  else if cstr s.dirent.name ≠ dot ∧ cstr s.dirent.name ≠ dotdot then self path s
  else some (0, s)

/-- The entry loop, up to the jump to `done`: the result, and the variable `path` there. -/
def entryLoop (self : CString → WalkState σ → Option (Int × WalkState σ)) (fuel : Nat)
    (dir : CString) (vfsDir : Option δ) :
    Nat → WalkState σ → Option (Int × Option HeapString × WalkState σ)
  | 0, _ => none
  | n + 1, s =>
    let (found, s) := s.readDir vfs vfsDir
    if !found then some (-1, none, s)
    else if s.dirent.type = .endMark then some (0, none, s)
    else
      match s.entryPath libc dir with
      | (none, s) => some (-1, none, s)
      | (some path, s) =>
        match processEntry vfs target self fuel path.str s with
        | none => none
        | some (err, s) =>
          if err ≠ 0 then some (-1, some path, s)
          else entryLoop self fuel dir vfsDir n (s.freePath libc (some path))

/-- `traversal` from the label `done` on. -/
def traversalDone (path : Option HeapString) (vfsDir : Option δ) (result : Int)
    (s : WalkState σ) : Int × WalkState σ :=
  let s := s.freePath libc path
  let s := if vfsDir.isSome then (s.closeDir vfs vfsDir).2 else s
  (result, s)

def traversal : Nat → CString → WalkState σ → Option (Int × WalkState σ)
  | 0, _, _ => none
  | fuel + 1, dir, s =>
    let (err, s) := s.makeDir target dir
    if err ≠ 0 then some (traversalDone libc vfs none none (-1) s)
    else
      let (vfsDir, s) := s.openDir vfs dir
      if vfsDir.isNone then some (traversalDone libc vfs none vfsDir (-1) s)
      else
        match entryLoop libc vfs target (traversal fuel) fuel dir vfsDir fuel s with
        | none => none
        | some (result, path, s) => some (traversalDone libc vfs path vfsDir result s)

/-- The body of `traversal`; `self` is the recursive call. -/
def traversalBody (self : CString → WalkState σ → Option (Int × WalkState σ)) (fuel : Nat)
    (dir : CString) (s : WalkState σ) : Option (Int × WalkState σ) :=
  let (err, s) := s.makeDir target dir
  if err ≠ 0 then some (traversalDone libc vfs none none (-1) s)
  else
    let (vfsDir, s) := s.openDir vfs dir
    if vfsDir.isNone then some (traversalDone libc vfs none vfsDir (-1) s)
    else
      match entryLoop libc vfs target self fuel dir vfsDir fuel s with
      | none => none
      | some (result, path, s) => some (traversalDone libc vfs path vfsDir result s)

theorem traversal_succ (fuel : Nat) (dir : CString) (s : WalkState σ) :
    traversal libc vfs target (fuel + 1) dir s =
      traversalBody libc vfs target (traversal libc vfs target fuel) fuel dir s := rfl

end Traversal

end Walk

end LfsTool
