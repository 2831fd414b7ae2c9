import Mathlib.Algebra.Order.Group.Multiset
import Mathlib.Data.Multiset.Bind
import Mathlib.Tactic.Abel
import LfsTool.Calls
import LfsTool.Containment
import LfsTool.Lfs
import LfsTool.Lib.Heap
import LfsTool.Lib.Replay
import LfsTool.Native

/-!
# LfsTool.Objects

The objects the back ends allocate: file objects, directory objects and path strings.

* `heapLibc`: `malloc` and `free` on an explicit heap, where `malloc` may fail at any time.
* `Footprint`: the objects of the handles of a back end, and what its `closedir` frees.
  `vfsNative_moves`, `vfsLfs_moves`: no call allocates or frees anything else.
* `Session`: any sequence of calls, with the handles that are open. `Step.accounted`,
  `NativeAccount.step`: the objects are those of the handles.
* `objects_tidy_iff`: littlefs leaves nothing behind. The native back end leaves a `struct vfs_dir`
  behind for each directory, and frees its name twice when `closedir` is called again after it failed.
-/

namespace LfsTool

open ObjectHeap PathSyntax Replay

/-! ## The back ends over a heap -/

section OnHeap

variable {σ : Type}

def heapLibc (alloc : Nat → σ → Bool × σ) : Libc (Heap σ) where
  malloc n h :=
    let (ok, sys) := alloc n h.sys
    if ok then (some h.next, (h.withSys sys).take) else (none, h.withSys sys)
  free
    | none, h => h
    | some p, h => h.give p

def onHeap {α : Type} (h : Heap σ) (r : α × σ) : α × Heap σ := (r.1, h.withSys r.2)

def Posix.onHeap (px : Posix σ) : Posix (Heap σ) where
  open_ path flags h := LfsTool.onHeap h (px.open_ path flags h.sys)
  close fd h := LfsTool.onHeap h (px.close fd h.sys)
  read fd n h := LfsTool.onHeap h (px.read fd n h.sys)
  write fd data h := LfsTool.onHeap h (px.write fd data h.sys)
  opendir path h := LfsTool.onHeap h (px.opendir path h.sys)
  closedir dir h := LfsTool.onHeap h (px.closedir dir h.sys)
  readdir dir h := LfsTool.onHeap h (px.readdir dir h.sys)
  stat path h := LfsTool.onHeap h (px.stat path h.sys)
  mkdir path h := LfsTool.onHeap h (px.mkdir path h.sys)

def Lfs.onHeap (lf : Lfs σ) : Lfs (Heap σ) where
  format c h := LfsTool.onHeap h (lf.format c h.sys)
  mount lfs c h := LfsTool.onHeap h (lf.mount lfs c h.sys)
  unmount lfs h := LfsTool.onHeap h (lf.unmount lfs h.sys)
  mkdir lfs path h := LfsTool.onHeap h (lf.mkdir lfs path h.sys)
  fileOpen lfs file path flags h := LfsTool.onHeap h (lf.fileOpen lfs file path flags h.sys)
  fileClose lfs file h := LfsTool.onHeap h (lf.fileClose lfs file h.sys)
  fileRead lfs file n h := LfsTool.onHeap h (lf.fileRead lfs file n h.sys)
  fileWrite lfs file data h := LfsTool.onHeap h (lf.fileWrite lfs file data h.sys)
  dirOpen lfs dir path h := LfsTool.onHeap h (lf.dirOpen lfs dir path h.sys)
  dirClose lfs dir h := LfsTool.onHeap h (lf.dirClose lfs dir h.sys)
  dirRead lfs dir h := LfsTool.onHeap h (lf.dirRead lfs dir h.sys)

variable {alloc : Nat → σ → Bool × σ} {h h₁ h₂ : Heap σ} {takes : Multiset Nat} {drop : Option Nat}

theorem malloc_none_moved {n : Nat} (e : (heapLibc alloc).malloc n h₁ = (none, h₂))
    (m : Moved h takes drop h₁) : Moved h takes drop h₂ := by
  simp only [heapLibc] at e
  split at e
  · cases e
  · cases e
    exact m.withSys _

theorem malloc_some_moved {n : Nat} {p : Ptr} (e : (heapLibc alloc).malloc n h₁ = (some p, h₂))
    (m : Moved h takes drop h₁) : Moved h (p ::ₘ takes) drop h₂ := by
  simp only [heapLibc] at e
  split at e
  · cases e
    exact (m.withSys (alloc n h₁.sys).2).take
  · cases e

theorem onHeap_moved {α : Type} {r : α × σ} {a : α} (e : onHeap h₁ r = (a, h₂))
    (m : Moved h takes drop h₁) : Moved h takes drop h₂ := by
  have hsys : h₁.withSys r.2 = h₂ := congrArg Prod.snd e
  exact hsys ▸ m.withSys r.2

theorem append_none_moved {dir path : CString}
    (e : appendDirAlloc (heapLibc alloc) dir path h₁ = (none, h₂)) (m : Moved h takes drop h₁) :
    Moved h takes drop h₂ := by
  simp only [appendDirAlloc] at e
  split at e
  · rename_i e'
    cases e
    exact malloc_none_moved e' m
  · cases e

theorem append_some_moved {dir path : CString} {s : HeapString}
    (e : appendDirAlloc (heapLibc alloc) dir path h₁ = (some s, h₂)) (m : Moved h takes drop h₁) :
    Moved h (s.ptr ::ₘ takes) drop h₂ := by
  simp only [appendDirAlloc] at e
  split at e
  · cases e
  · rename_i e'
    cases e
    exact malloc_some_moved e' m

end OnHeap

/-! ## What the calls allocate and free -/

/-- The objects of the handles of a back end, what its `closedir` frees, and what is left of a
directory when that has failed or returned 0. -/
structure Footprint (φ δ : Type) where
  file : φ → Nat
  dir : δ → Multiset Nat
  closedir : δ → Int → Option Nat
  failed : δ → Multiset Nat
  closed : δ → Multiset Nat
  mem : ∀ d err p, closedir d err = some p → p ∈ dir d
  left : ∀ d err, without (closedir d err) (dir d) = if err = 0 then closed d else failed d

section Footprint

variable {φ δ : Type} (fp : Footprint φ δ)

def VfsCall.takes : VfsCall φ δ → Multiset Nat
  | .open_ _ _ (some fd) => {fp.file fd}
  | .opendir _ (some dir) => fp.dir dir
  | _ => 0

def VfsCall.drop : VfsCall φ δ → Option Nat
  | .close (some fd) err => if err = 0 then some (fp.file fd) else none
  | .closedir (some dir) err => fp.closedir dir err
  | _ => none

/-- The calls of a back end allocate and free what the footprint says. -/
structure VfsMoves {σ : Type} (v : Vfs (Heap σ) φ δ) (fp : Footprint φ δ) : Prop where
  open_ : ∀ path flags h, Moved h ((VfsCall.open_ path flags (v.open_ path flags h).1).takes fp) none
    (v.open_ path flags h).2
  close : ∀ fd h, Moved h 0 ((VfsCall.close fd (v.close fd h).1).drop fp) (v.close fd h).2
  read : ∀ fd buf n h, Moved h 0 none (v.read fd buf n h).2
  write : ∀ fd buf n h, Moved h 0 none (v.write fd buf n h).2
  opendir : ∀ path h, Moved h ((VfsCall.opendir path (v.opendir path h).1).takes fp) none
    (v.opendir path h).2
  closedir : ∀ dir h, Moved h 0 ((VfsCall.closedir dir (v.closedir dir h).1).drop fp)
    (v.closedir dir h).2
  readdir : ∀ dir slot h, Moved h 0 none (v.readdir dir slot h).2
  mkdir : ∀ path h, Moved h 0 none (v.mkdir path h).2

end Footprint

/-- `struct vfs_file`; `struct vfs_dir` with its `dirname`, of which `vfs_closedir` frees the latter. -/
def nativeFootprint : Footprint NativeFile NativeDir where
  file fd := fd.ptr
  dir d := d.dirname.ptr ::ₘ {d.ptr}
  closedir d _ := some d.dirname.ptr
  failed d := {d.ptr}
  closed d := {d.ptr}
  mem d _ p h := Option.some.inj h ▸ Multiset.mem_cons_self _ _
  left d err := by
    rw [ite_self]
    exact Multiset.erase_cons_head d.dirname.ptr {d.ptr}

def lfsFootprint : Footprint Ptr Ptr where
  file fd := fd
  dir d := {d}
  closedir d err := if err = 0 then some d else none
  failed d := {d}
  closed _ := 0
  mem d err p h := by
    split at h
    · cases h
      exact Multiset.mem_singleton_self _
    · cases h
  left d err := by
    split
    · exact Multiset.erase_cons_head d 0
    · rfl

section Moves

variable {σ : Type} (alloc : Nat → σ → Bool × σ)

theorem vfsNative_moves (px : Posix σ) (contextPath : CString) :
    VfsMoves (vfsNative (heapLibc alloc) px.onHeap contextPath) nativeFootprint where
  open_ path flags h := by
    simp only [vfsNative, nativeOpen]
    rcases e₁ : (heapLibc alloc).malloc sizeofVfsFile h with ⟨_ | file, h₁⟩
    · exact malloc_none_moved e₁ (.refl h)
    · have m₁ := malloc_some_moved e₁ (.refl h)
      dsimp only
      rcases e₂ : appendDirAlloc (heapLibc alloc) contextPath path h₁ with ⟨_ | s, h₂⟩
      · exact (append_none_moved e₂ m₁).give_taken
      · have m₂ := (append_some_moved e₂ m₁).withSys (px.open_ s.str flags h₂.sys).2
        dsimp only
        split
        · exact m₂.give_taken
        · exact m₂.give_taken.give_taken
  close fd h := by
    cases fd with
    | none => exact .refl h
    | some file =>
      have m := (Moved.refl h).withSys (px.close file.fd h.sys).2
      simp only [vfsNative, nativeClose, VfsCall.drop]
      split
      · exact m.give file.ptr
      · exact m
  read fd buf n h := by
    cases fd with
    | none => exact .refl h
    | some file =>
      simp only [vfsNative, nativeRead]
      split <;> rename_i e <;> exact onHeap_moved e (.refl h)
  write fd buf n h := by
    cases fd with
    | none => exact .refl h
    | some file =>
      simp only [vfsNative, nativeWrite]
      split <;> rename_i e <;> exact onHeap_moved e (.refl h)
  opendir path h := by
    simp only [vfsNative, nativeOpendir]
    rcases e₁ : (heapLibc alloc).malloc sizeofVfsDir h with ⟨_ | vfsDir, h₁⟩
    · exact malloc_none_moved e₁ (.refl h)
    · have m₁ := malloc_some_moved e₁ (.refl h)
      dsimp only
      rcases e₂ : appendDirAlloc (heapLibc alloc) contextPath path h₁ with ⟨_ | s, h₂⟩
      · exact (append_none_moved e₂ m₁).give_taken
      · have m₂ := append_some_moved e₂ m₁
        dsimp only
        rcases e₃ : px.onHeap.opendir s.str h₂ with ⟨_ | dir, h₃⟩
        · exact (onHeap_moved e₃ m₂).give_taken.give_taken
        · exact onHeap_moved e₃ m₂
  closedir dir h := by
    cases dir with
    | none => exact .refl h
    | some vfsDir =>
      have m := ((Moved.refl h).give vfsDir.dirname.ptr).withSys
        (px.closedir vfsDir.dir (h.give vfsDir.dirname.ptr).sys).2
      simp only [vfsNative, nativeClosedir, VfsCall.drop]
      split <;> exact m
  readdir dir slot h := by
    cases dir with
    | none => exact .refl h
    | some vfsDir =>
      simp only [vfsNative, nativeReaddir]
      rcases e₁ : px.onHeap.readdir vfsDir.dir h with ⟨_ | _ | dName, h₁⟩
      · exact onHeap_moved e₁ (.refl h)
      · exact onHeap_moved e₁ (.refl h)
      · have m₁ := onHeap_moved e₁ (.refl h)
        dsimp only
        rcases e₂ : appendDirAlloc (heapLibc alloc) vfsDir.dirname.str dName h₁ with ⟨_ | buf, h₂⟩
        · exact append_none_moved e₂ m₁
        · have m₂ := append_some_moved e₂ m₁
          dsimp only
          rcases e₃ : px.onHeap.stat buf.str h₂ with ⟨_ | mode, h₃⟩
          · exact (onHeap_moved e₃ m₂).give_taken
          · have m₃ := onHeap_moved e₃ m₂
            dsimp only
            split
            · exact m₃.give_taken
            · split
              · exact m₃.give_taken
              · exact m₃.give_taken
  mkdir path h := by
    simp only [vfsNative, nativeMkdir]
    rcases e₁ : appendDirAlloc (heapLibc alloc) contextPath path h with ⟨_ | s, h₁⟩
    · exact (append_none_moved e₁ (.refl h)).withSys _
    · exact ((append_some_moved e₁ (.refl h)).withSys _).give_taken

theorem vfsLfs_moves (lf : Lfs σ) (lfs : Option Ptr) :
    VfsMoves (vfsLfs (heapLibc alloc) lf.onHeap lfs) lfsFootprint where
  open_ path flags h := by
    simp only [vfsLfs, lfsOpen]
    rcases e₁ : (heapLibc alloc).malloc sizeofLfsFile h with ⟨_ | file, h₁⟩
    · exact malloc_none_moved e₁ (.refl h)
    · have m₁ := (malloc_some_moved e₁ (.refl h)).withSys
        (lf.fileOpen lfs file path (lfsFlags flags) h₁.sys).2
      dsimp only
      split
      · exact m₁
      · exact m₁.give_taken
  close fd h := by
    cases fd with
    | none => exact .refl h
    | some file =>
      have m := (Moved.refl h).withSys (lf.fileClose lfs file h.sys).2
      simp only [vfsLfs, lfsClose, VfsCall.drop]
      split
      · exact m.give file
      · exact m
  read fd buf n h := by
    cases fd with
    | none => exact .refl h
    | some file =>
      simp only [vfsLfs, lfsRead]
      split <;> rename_i e <;> exact onHeap_moved e (.refl h)
  write fd buf n h := by
    cases fd with
    | none => exact .refl h
    | some file =>
      simp only [vfsLfs, lfsWrite]
      split <;> rename_i e <;> exact onHeap_moved e (.refl h)
  opendir path h := by
    simp only [vfsLfs, lfsOpendir]
    rcases e₁ : (heapLibc alloc).malloc sizeofLfsDir h with ⟨_ | dir, h₁⟩
    · exact malloc_none_moved e₁ (.refl h)
    · have m₁ := (malloc_some_moved e₁ (.refl h)).withSys (lf.dirOpen lfs dir path h₁.sys).2
      dsimp only
      split
      · exact m₁
      · exact m₁.give_taken
  closedir dir h := by
    cases dir with
    | none => exact .refl h
    | some lfsDir =>
      have m := (Moved.refl h).withSys (lf.dirClose lfs lfsDir h.sys).2
      simp only [vfsLfs, lfsClosedir, VfsCall.drop]
      split
      · exact m.give lfsDir
      · exact m
  readdir dir slot h := by
    cases dir with
    | none => exact .refl h
    | some lfsDir =>
      have m := (Moved.refl h).withSys (lf.dirRead lfs lfsDir h.sys).2
      simp only [vfsLfs, lfsReaddir]
      split
      · exact m
      · split
        · exact m
        · split <;> exact m
  mkdir path h := by
    have m := (Moved.refl h).withSys (lf.mkdir lfs path h.sys).2
    simp only [vfsLfs, lfsMkdir]
    split <;> exact m

end Moves

/-! ## Sessions -/

/-- The heap, and the handles that have been returned: the files and the directories not closed yet,
the directories a `closedir` of which has failed, and those `closedir` has returned 0 for. -/
structure Session (σ φ δ : Type) where
  heap : Heap σ
  files : Multiset φ
  dirs : Multiset δ
  failed : Multiset δ
  closed : Multiset δ

/-- A call of a session; `again` is a `closedir` of a directory for which one has failed before. -/
inductive SessionCall (φ δ : Type) where
  | call (c : VfsCall φ δ)
  | again (dir : δ) (err : Int)

/-- `open`, `opendir` and `readdir` return NULL, `mkdir` an error. -/
def SessionCall.Fails {φ δ : Type} : SessionCall φ δ → Prop
  | .call (.open_ _ _ none) => True
  | .call (.opendir _ none) => True
  | .call (.readdir _ none) => True
  | .call (.mkdir _ err) => err ≠ 0
  | _ => False

def SessionCall.opensDir {φ δ : Type} : SessionCall φ δ → Bool
  | .call (.opendir _ r) => r.isSome
  | _ => false

def SessionCall.isAgain {φ δ : Type} : SessionCall φ δ → Bool
  | .again _ _ => true
  | _ => false

namespace Session

variable {σ φ δ : Type}

inductive Step (v : Vfs (Heap σ) φ δ) : Session σ φ δ → SessionCall φ δ → Session σ φ δ → Prop where
  | open_ {s : Session σ φ δ} {path : CString} {flags : Nat} {r : Option φ} {h : Heap σ} :
      v.open_ path flags s.heap = (r, h) →
      Step v s (.call (.open_ path flags r))
        { s with heap := h, files := r.elim s.files (· ::ₘ s.files) }
  | close {s : Session σ φ δ} {fd : φ} {files : Multiset φ} {err : Int} {h : Heap σ} :
      s.files = fd ::ₘ files → v.close (some fd) s.heap = (err, h) →
      Step v s (.call (.close (some fd) err))
        { s with heap := h, files := if err = 0 then files else s.files }
  | closeNull {s : Session σ φ δ} {err : Int} {h : Heap σ} :
      v.close none s.heap = (err, h) → Step v s (.call (.close none err)) { s with heap := h }
  | read {s : Session σ φ δ} {fd : Option φ} {buf buf' : List UInt8} {n : Nat} {rb : Int} {h : Heap σ} :
      (∀ file, fd = some file → file ∈ s.files) → v.read fd buf n s.heap = ((rb, buf'), h) →
      Step v s (.call (.read fd n rb)) { s with heap := h }
  | write {s : Session σ φ δ} {fd : Option φ} {buf : List UInt8} {n : Nat} {wb : Int} {h : Heap σ} :
      (∀ file, fd = some file → file ∈ s.files) → v.write fd buf n s.heap = (wb, h) →
      Step v s (.call (.write fd (buf.take n) n wb)) { s with heap := h }
  | opendir {s : Session σ φ δ} {path : CString} {r : Option δ} {h : Heap σ} :
      v.opendir path s.heap = (r, h) →
      Step v s (.call (.opendir path r)) { s with heap := h, dirs := r.elim s.dirs (· ::ₘ s.dirs) }
  | closedir {s : Session σ φ δ} {d : δ} {dirs : Multiset δ} {err : Int} {h : Heap σ} :
      s.dirs = d ::ₘ dirs → v.closedir (some d) s.heap = (err, h) →
      Step v s (.call (.closedir (some d) err))
        { s with
          heap := h, dirs := dirs, failed := if err = 0 then s.failed else d ::ₘ s.failed,
          closed := if err = 0 then d ::ₘ s.closed else s.closed }
  | again {s : Session σ φ δ} {d : δ} {failed : Multiset δ} {err : Int} {h : Heap σ} :
      s.failed = d ::ₘ failed → v.closedir (some d) s.heap = (err, h) →
      Step v s (.again d err)
        { s with
          heap := h, failed := if err = 0 then failed else s.failed,
          closed := if err = 0 then d ::ₘ s.closed else s.closed }
  | closedirNull {s : Session σ φ δ} {err : Int} {h : Heap σ} :
      v.closedir none s.heap = (err, h) → Step v s (.call (.closedir none err)) { s with heap := h }
  | readdir {s : Session σ φ δ} {dir : Option δ} {slot slot' : Dirent} {found : Bool} {h : Heap σ} :
      (∀ d, dir = some d → d ∈ s.dirs + s.failed) →
      v.readdir dir slot s.heap = ((found, slot'), h) →
      Step v s (.call (.readdir dir (if found then some slot'.entry else none)))
        { s with heap := h }
  | mkdir {s : Session σ φ δ} {path : CString} {err : Int} {h : Heap σ} :
      v.mkdir path s.heap = (err, h) → Step v s (.call (.mkdir path err)) { s with heap := h }

def start (heap : Heap σ) : Session σ φ δ := ⟨{ heap with faulty := false }, 0, 0, 0, 0⟩

/-- Every handle that was returned has been passed to its close, and that returned 0. -/
structure AllClosed (s : Session σ φ δ) : Prop where
  files : s.files = 0
  dirs : s.dirs = 0
  failed : s.failed = 0

def owned (fp : Footprint φ δ) (s : Session σ φ δ) : Multiset Nat :=
  s.files.map fp.file + s.dirs.bind fp.dir + s.failed.bind fp.failed + s.closed.bind fp.closed

variable {v : Vfs (Heap σ) φ δ} {fp : Footprint φ δ} {base : Multiset Nat} {s s' : Session σ φ δ}
  {c : VfsCall φ δ}

/-- A call that is no second `closedir` keeps the account and frees live objects only. -/
theorem Step.accounted (hv : VfsMoves v fp) (hs : s.heap.objects = base + s.owned fp)
    (h : Step v s (.call c) s') :
    s'.heap.objects = base + s'.owned fp ∧ s'.heap.faulty = s.heap.faulty := by
  have hidle : ∀ {α : Type} {result : α × Heap σ} {r : α} {heap : Heap σ}, Moved s.heap 0 none result.2 →
      result = (r, heap) → heap.objects = base + s.owned fp ∧ heap.faulty = s.heap.faulty := by
    rintro α _ r heap m rfl
    exact ⟨(m.objects.trans (Multiset.zero_add _)).trans hs, m.faulty_of_mem fun _ h => by cases h⟩
  cases h with
  | @open_ path flags r heap hcall =>
    have m := hv.open_ path flags s.heap
    rw [hcall] at m
    refine ⟨?_, m.faulty_of_mem fun _ h => by cases h⟩
    cases r with
    | none => exact (m.objects.trans (Multiset.zero_add _)).trans hs
    | some fd =>
      have hobjects : heap.objects = {fp.file fd} + s.heap.objects := m.objects
      rw [hobjects, hs]
      simp only [owned, Option.elim_some, Multiset.map_cons]
      rw [← Multiset.singleton_add]
      abel
  | @close fd files err heap hfiles hcall =>
    have m := hv.close (some fd) s.heap
    rw [hcall] at m
    have hmem : fp.file fd ∈ s.heap.objects := by
      rw [hs, owned, hfiles, Multiset.map_cons]
      simp
    by_cases herr : err = 0
    · have hdrop : (VfsCall.close (some fd) err : VfsCall φ δ).drop fp = some (fp.file fd) := if_pos herr
      rw [hdrop] at m
      refine ⟨?_, m.faulty_of_mem fun p hp => Option.some.inj hp ▸ hmem⟩
      have hobjects : heap.objects = 0 + s.heap.objects.erase (fp.file fd) := m.objects
      have hsplit : s.heap.objects = fp.file fd ::ₘ (base + (files.map fp.file + s.dirs.bind fp.dir +
          s.failed.bind fp.failed + s.closed.bind fp.closed)) := by
        rw [hs, owned, hfiles, Multiset.map_cons]
        simp only [← Multiset.singleton_add]
        abel
      rw [hobjects, hsplit, Multiset.erase_cons_head, Multiset.zero_add, owned]
      simp only [if_pos herr]
    · have hdrop : (VfsCall.close (some fd) err : VfsCall φ δ).drop fp = none := if_neg herr
      rw [hdrop] at m
      have hkept := hidle (r := err) m rfl
      simp only [owned, if_neg herr]
      exact hkept
  | @closeNull err heap hcall => exact hidle (hv.close none s.heap) hcall
  | @read fd buf buf' n rb heap hfd hcall => exact hidle (hv.read fd buf n s.heap) hcall
  | @write fd buf n wb heap hfd hcall => exact hidle (hv.write fd buf n s.heap) hcall
  | @opendir path r heap hcall =>
    have m := hv.opendir path s.heap
    rw [hcall] at m
    refine ⟨?_, m.faulty_of_mem fun _ h => by cases h⟩
    cases r with
    | none => exact (m.objects.trans (Multiset.zero_add _)).trans hs
    | some d =>
      have hobjects : heap.objects = fp.dir d + s.heap.objects := m.objects
      rw [hobjects, hs]
      simp only [owned, Option.elim_some, Multiset.cons_bind]
      abel
  | @closedir d dirs err heap hdirs hcall =>
    have m := hv.closedir (some d) s.heap
    rw [hcall] at m
    have hsplit : s.heap.objects = fp.dir d + (base + (s.files.map fp.file + dirs.bind fp.dir +
        s.failed.bind fp.failed + s.closed.bind fp.closed)) := by
      rw [hs, owned, hdirs, Multiset.cons_bind]
      abel
    have hmem : ∀ p, fp.closedir d err = some p → p ∈ s.heap.objects := fun p hp => by
      rw [hsplit]
      exact Multiset.mem_add.mpr (.inl (fp.mem d err p hp))
    refine ⟨?_, m.faulty_of_mem hmem⟩
    have hobjects : heap.objects = 0 + without (fp.closedir d err) s.heap.objects := m.objects
    rw [hobjects, hsplit, without_add (fp.mem d err), fp.left, Multiset.zero_add, owned]
    by_cases herr : err = 0
    · simp only [if_pos herr, Multiset.cons_bind]
      abel
    · simp only [if_neg herr, Multiset.cons_bind]
      abel
  | @closedirNull err heap hcall => exact hidle (hv.closedir none s.heap) hcall
  | @readdir dir slot slot' found heap hd hcall => exact hidle (hv.readdir dir slot s.heap) hcall
  | @mkdir path err heap hcall => exact hidle (hv.mkdir path s.heap) hcall

theorem Step.accounted_again {v : Vfs (Heap σ) Ptr Ptr} {s s' : Session σ Ptr Ptr} {d : Ptr} {err : Int}
    (hv : VfsMoves v lfsFootprint) (hs : s.heap.objects = base + s.owned lfsFootprint)
    (h : Step v s (.again d err) s') :
    s'.heap.objects = base + s'.owned lfsFootprint ∧ s'.heap.faulty = s.heap.faulty := by
  cases h with
  | @again d failed err heap hfailed hcall =>
    have m := hv.closedir (some d) s.heap
    rw [hcall] at m
    have hsplit : s.heap.objects = lfsFootprint.dir d + (base + (s.files.map lfsFootprint.file +
        s.dirs.bind lfsFootprint.dir + failed.bind lfsFootprint.failed +
          s.closed.bind lfsFootprint.closed)) := by
      have hdir : lfsFootprint.dir d = lfsFootprint.failed d := rfl
      rw [hs, owned, hfailed, Multiset.cons_bind, hdir]
      abel
    have hmem : ∀ p, lfsFootprint.closedir d err = some p → p ∈ s.heap.objects := fun p hp => by
      rw [hsplit]
      exact Multiset.mem_add.mpr (.inl (lfsFootprint.mem d err p hp))
    refine ⟨?_, m.faulty_of_mem hmem⟩
    have hobjects : heap.objects = 0 + without (lfsFootprint.closedir d err) s.heap.objects := m.objects
    rw [hobjects, hsplit, without_add (lfsFootprint.mem d err), lfsFootprint.left, Multiset.zero_add,
      owned]
    by_cases herr : err = 0
    · simp only [if_pos herr, Multiset.cons_bind]
      abel
    · simp only [if_neg herr, hfailed, Multiset.cons_bind]
      abel

theorem exists_moved {α : Type} {h h' : Heap σ} {result : α × Heap σ} {r : α} {takes : Multiset Nat}
    {drop : Option Nat} (m : Moved h takes drop result.2) (hcall : result = (r, h')) :
    ∃ takes drop, Moved h takes drop h' := by
  rw [hcall] at m
  exact ⟨takes, drop, m⟩

theorem Step.moved (hv : VfsMoves v fp) {c : SessionCall φ δ} (h : Step v s c s') :
    ∃ takes drop, Moved s.heap takes drop s'.heap := by
  cases h with
  | @open_ path flags r heap hcall => exact exists_moved (hv.open_ path flags s.heap) hcall
  | @close fd files err heap hfiles hcall => exact exists_moved (hv.close (some fd) s.heap) hcall
  | @closeNull err heap hcall => exact exists_moved (hv.close none s.heap) hcall
  | @read fd buf buf' n rb heap hfd hcall => exact exists_moved (hv.read fd buf n s.heap) hcall
  | @write fd buf n wb heap hfd hcall => exact exists_moved (hv.write fd buf n s.heap) hcall
  | @opendir path r heap hcall => exact exists_moved (hv.opendir path s.heap) hcall
  | @closedir d dirs err heap hdirs hcall => exact exists_moved (hv.closedir (some d) s.heap) hcall
  | @again d failed err heap hfailed hcall => exact exists_moved (hv.closedir (some d) s.heap) hcall
  | @closedirNull err heap hcall => exact exists_moved (hv.closedir none s.heap) hcall
  | @readdir dir slot slot' found heap hd hcall => exact exists_moved (hv.readdir dir slot s.heap) hcall
  | @mkdir path err heap hcall => exact exists_moved (hv.mkdir path s.heap) hcall

theorem Step.failed_mem {c : SessionCall φ δ} (h : Step v s c s') {d : δ} (hd : d ∈ s'.failed) :
    d ∈ s.failed ∨
      ∃ dirs err, s.dirs = d ::ₘ dirs ∧ v.closedir (some d) s.heap = (err, s'.heap) := by
  cases h with
  | @closedir d' dirs err heap hdirs hcall =>
    dsimp only at hd
    split at hd
    · exact .inl hd
    · rcases Multiset.mem_cons.mp hd with rfl | hd
      · exact .inr ⟨dirs, err, hdirs, hcall⟩
      · exact .inl hd
  | @again d' failed err heap hfailed hcall =>
    dsimp only at hd
    split at hd
    · exact .inl (hfailed ▸ Multiset.mem_cons_of_mem hd)
    · exact .inl hd
  | _ => exact .inl hd

theorem Step.dirs_card {c : SessionCall φ δ} (h : Step v s c s') :
    s'.dirs.card + s'.failed.card + s'.closed.card =
      s.dirs.card + s.failed.card + s.closed.card + if c.opensDir then 1 else 0 := by
  cases h with
  | @opendir path r heap hcall =>
    cases r with
    | none => rfl
    | some d =>
      simp only [SessionCall.opensDir, Option.elim_some, Multiset.card_cons, Option.isSome_some, if_true]
      omega
  | @closedir d dirs err heap hdirs hcall =>
    rw [hdirs]
    dsimp only
    split <;> simp only [SessionCall.opensDir, Multiset.card_cons] <;> simp <;> omega
  | @again d failed err heap hfailed hcall =>
    dsimp only
    split
    · simp only [SessionCall.opensDir, hfailed, Multiset.card_cons]
      simp
      omega
    · rfl
  | _ => rfl

theorem Step.live_eq_of_fails (hv : VfsMoves v fp) {c : SessionCall φ δ} (h : Step v s c s')
    (hc : c.Fails) : s'.heap.live = s.heap.live := by
  cases h with
  | @open_ path flags r heap hcall =>
    cases r with
    | none =>
      have m := hv.open_ path flags s.heap
      rw [hcall] at m
      exact m.live_eq
    | some fd => exact hc.elim
  | @opendir path r heap hcall =>
    cases r with
    | none =>
      have m := hv.opendir path s.heap
      rw [hcall] at m
      exact m.live_eq
    | some d => exact hc.elim
  | @readdir dir slot slot' found heap hd hcall =>
    have m := hv.readdir dir slot s.heap
    rw [hcall] at m
    exact m.live_eq
  | @mkdir path err heap hcall =>
    have m := hv.mkdir path s.heap
    rw [hcall] at m
    exact m.live_eq
  | _ => exact hc.elim

/-! ## The native back end -/

section Native

variable {σ : Type} {v : Vfs (Heap σ) NativeFile NativeDir} {base : Multiset Nat}
  {s s' : Session σ NativeFile NativeDir}

/-- The objects are those of the handles. The name of a directory is gone once `closedir` has
failed. -/
structure NativeAccount (base : Multiset Nat) (s : Session σ NativeFile NativeDir) : Prop where
  objects : s.heap.objects = base + s.owned nativeFootprint
  dead : ∀ d ∈ s.failed, d.dirname.ptr < s.heap.next ∧ d.dirname.ptr ∉ s.heap.objects

theorem NativeAccount.dirname_mem (hs : NativeAccount base s) {d : NativeDir} {dirs : Multiset NativeDir}
    (hdirs : s.dirs = d ::ₘ dirs) : d.dirname.ptr ∈ s.heap.objects := by
  rw [hs.objects, owned, hdirs, Multiset.cons_bind]
  simp [nativeFootprint]

theorem NativeAccount.again (hv : VfsMoves v nativeFootprint) (hs : NativeAccount base s) {d : NativeDir}
    {err : Int} (h : Step v s (.again d err) s') :
    s'.heap.objects = base + s'.owned nativeFootprint ∧ s'.heap.faulty = true := by
  cases h with
  | @again d failed err heap hfailed hcall =>
    have m := hv.closedir (some d) s.heap
    rw [hcall] at m
    have hdead : d.dirname.ptr ∉ s.heap.objects :=
      (hs.dead d (hfailed ▸ Multiset.mem_cons_self d failed)).2
    have hobjects : heap.objects = 0 + s.heap.objects.erase d.dirname.ptr := m.objects
    constructor
    · rw [hobjects, Multiset.zero_add, Multiset.erase_of_notMem hdead, hs.objects]
      by_cases herr : err = 0
      · simp only [owned, if_pos herr, hfailed, Multiset.cons_bind, nativeFootprint]
        abel
      · simp only [owned, if_neg herr]
    · have hfaulty : heap.faulty = (s.heap.faulty || !decide (d.dirname.ptr ∈ s.heap.live)) := m.faulty
      have hlive : d.dirname.ptr ∉ s.heap.live := hdead
      simp [hfaulty, hlive]

theorem NativeAccount.step (hv : VfsMoves v nativeFootprint) (hs : NativeAccount base s)
    {c : SessionCall NativeFile NativeDir} (h : Step v s c s') :
    NativeAccount base s' ∧ s'.heap.faulty = (s.heap.faulty || c.isAgain) := by
  have hkeeps : s'.heap.objects = base + s'.owned nativeFootprint ∧
      s'.heap.faulty = (s.heap.faulty || c.isAgain) := by
    cases c with
    | call c =>
      obtain ⟨hobjects, hfaulty⟩ := h.accounted hv hs.objects
      exact ⟨hobjects, hfaulty.trans (Bool.or_false _).symm⟩
    | again d err =>
      obtain ⟨hobjects, hfaulty⟩ := hs.again hv h
      exact ⟨hobjects, hfaulty.trans (Bool.or_true _).symm⟩
  refine ⟨⟨hkeeps.1, fun d hd => ?_⟩, hkeeps.2⟩
  rcases h.failed_mem hd with hd | ⟨dirs, err, hdirs, hcall⟩
  · obtain ⟨takes, drop, m⟩ := h.moved hv
    exact m.dead (hs.dead d hd).1 (hs.dead d hd).2
  · have m := hv.closedir (some d) s.heap
    rw [hcall] at m
    have hmem : d.dirname.ptr ∈ s.heap.objects := hs.dirname_mem hdirs
    have hobjects : s'.heap.objects = 0 + s.heap.objects.erase d.dirname.ptr := m.objects
    refine ⟨Nat.lt_of_lt_of_le (s.heap.fresh _ hmem) m.next, ?_⟩
    rw [hobjects, Multiset.zero_add]
    exact s.heap.objects_nodup.notMem_erase

theorem NativeAccount.run (hv : VfsMoves v nativeFootprint) {calls : List (SessionCall NativeFile NativeDir)}
    (h : Run (Step v) s calls s') (hs : NativeAccount base s) :
    NativeAccount base s' ∧ s'.heap.faulty = (s.heap.faulty || calls.any (·.isAgain)) := by
  induction h with
  | nil => exact ⟨hs, (Bool.or_false _).symm⟩
  | cons hstep _ ih =>
    obtain ⟨hs₁, hfaulty⟩ := hs.step hv hstep
    obtain ⟨hs', hfaulty'⟩ := ih hs₁
    exact ⟨hs', by rw [hfaulty', hfaulty, List.any_cons, Bool.or_assoc]⟩

end Native

section Runs

variable {σ φ δ : Type} {v : Vfs (Heap σ) φ δ} {s s' : Session σ φ δ} {calls : List (SessionCall φ δ)}

theorem run_dirs_card (h : Run (Step v) s calls s') :
    s'.dirs.card + s'.failed.card + s'.closed.card =
      s.dirs.card + s.failed.card + s.closed.card + calls.countP (·.opensDir) := by
  induction h with
  | nil => rfl
  | cons hstep _ ih =>
    rw [ih, hstep.dirs_card, List.countP_cons]
    omega

theorem run_accounted {v : Vfs (Heap σ) Ptr Ptr} {s s' : Session σ Ptr Ptr}
    {calls : List (SessionCall Ptr Ptr)} {base : Multiset Nat} (hv : VfsMoves v lfsFootprint)
    (h : Run (Step v) s calls s') (hs : s.heap.objects = base + s.owned lfsFootprint) :
    s'.heap.objects = base + s'.owned lfsFootprint ∧ s'.heap.faulty = s.heap.faulty := by
  induction h with
  | nil => exact ⟨hs, rfl⟩
  | @cons s s₁ s' c calls hstep _ ih =>
    have hkeeps : s₁.heap.objects = base + s₁.owned lfsFootprint ∧ s₁.heap.faulty = s.heap.faulty := by
      cases c with
      | call c => exact hstep.accounted hv hs
      | again d err => exact hstep.accounted_again hv hs
    obtain ⟨hobjects, hfaulty⟩ := ih hkeeps.1
    exact ⟨hobjects, hfaulty.trans hkeeps.2⟩

end Runs

/-! ## Tidy runs -/

/-- `s` is reached from `heap` by `calls`. A call that fails leaves the set of live objects as it
was. Nothing is freed that is not live. When every handle has been closed, the objects are those of
the start. -/
structure Tidy {σ φ δ : Type} (v : Vfs (Heap σ) φ δ) (heap : Heap σ) (calls : List (SessionCall φ δ))
    (s : Session σ φ δ) : Prop where
  failing : ∀ before c after s₁ s₂, calls = before ++ c :: after →
    Run (Step v) (start heap) before s₁ → Step v s₁ c s₂ → c.Fails → s₂.heap.live = s₁.heap.live
  once : s.heap.faulty = false
  restored : s.AllClosed → s.heap.live = heap.live

theorem owned_start {σ φ δ : Type} (fp : Footprint φ δ) (heap : Heap σ) :
    (start heap : Session σ φ δ).heap.objects = heap.objects + (start heap : Session σ φ δ).owned fp :=
  (Multiset.add_zero _).symm

theorem AllClosed.owned_eq {σ φ δ : Type} {s : Session σ φ δ} (h : s.AllClosed) (fp : Footprint φ δ) :
    s.owned fp = s.closed.bind fp.closed := by
  rw [owned, h.files, h.dirs, h.failed, Multiset.map_zero, Multiset.zero_bind, Multiset.zero_bind,
    Multiset.add_zero, Multiset.add_zero, Multiset.zero_add]

theorem AllClosed.left_native {σ : Type} {v : Vfs (Heap σ) NativeFile NativeDir} {heap : Heap σ}
    {s : Session σ NativeFile NativeDir} {calls : List (SessionCall NativeFile NativeDir)}
    (h : s.AllClosed) (hv : VfsMoves v nativeFootprint) (hrun : Run (Step v) (start heap) calls s) :
    s.heap.objects.card = heap.objects.card + calls.countP (·.opensDir) ∧
      (s.heap.live = heap.live ↔ calls.countP (·.opensDir) = 0) := by
  have haccount : NativeAccount heap.objects (start heap : Session σ NativeFile NativeDir) :=
    ⟨owned_start nativeFootprint heap, fun d hd => absurd hd (Multiset.notMem_zero d)⟩
  obtain ⟨hs, _⟩ := haccount.run hv hrun
  have hcount := run_dirs_card hrun
  simp only [start, h.dirs, h.failed, Multiset.card_zero, Nat.zero_add] at hcount
  have hobjects : s.heap.objects = heap.objects + s.closed.map (·.ptr) := by
    rw [hs.objects, h.owned_eq]
    exact congrArg _ (Multiset.bind_singleton _ _)
  have hcard : s.heap.objects.card = heap.objects.card + calls.countP (·.opensDir) := by
    rw [hobjects, Multiset.card_add, Multiset.card_map, hcount]
  refine ⟨hcard, ?_⟩
  rw [Heap.live_eq_iff]
  constructor
  · intro heq
    rw [heq] at hcard
    omega
  · intro hzero
    rw [hobjects, Multiset.card_eq_zero.mp (hcount.trans hzero)]
    exact Multiset.add_zero _

/-- In every run littlefs is tidy. The native back end is tidy in a run if and only if no `closedir` is
repeated after it has failed and, should every handle end up closed, no directory was opened. -/
theorem objects_tidy_iff {σ : Type} (alloc : Nat → σ → Bool × σ) (lf : Lfs σ) (lfs : Option Ptr)
    (px : Posix σ) (contextPath : CString) (heap : Heap σ) :
    (∀ calls s, Run (Step (vfsLfs (heapLibc alloc) lf.onHeap lfs)) (start heap) calls s →
      Tidy (vfsLfs (heapLibc alloc) lf.onHeap lfs) heap calls s) ∧
    ∀ calls s, Run (Step (vfsNative (heapLibc alloc) px.onHeap contextPath)) (start heap) calls s →
      (Tidy (vfsNative (heapLibc alloc) px.onHeap contextPath) heap calls s ↔
        (∀ c ∈ calls, ¬c.isAgain) ∧ (s.AllClosed → ∀ c ∈ calls, ¬c.opensDir)) := by
  constructor
  · intro calls s hrun
    have hv := vfsLfs_moves alloc lf lfs
    obtain ⟨hobjects, hfaulty⟩ := run_accounted hv hrun (owned_start lfsFootprint heap)
    refine ⟨fun _ _ _ _ _ _ _ hstep hc => hstep.live_eq_of_fails hv hc, hfaulty, fun hclosed => ?_⟩
    rw [Heap.live_eq_iff, hobjects, hclosed.owned_eq]
    exact (congrArg _ (Multiset.bind_zero _)).trans (Multiset.add_zero _)
  · intro calls s hrun
    have hv := vfsNative_moves alloc px contextPath
    have haccount : NativeAccount heap.objects (start heap : Session σ NativeFile NativeDir) :=
      ⟨owned_start nativeFootprint heap, fun d hd => absurd hd (Multiset.notMem_zero d)⟩
    have hfaulty : s.heap.faulty = (false || calls.any (·.isAgain)) := (haccount.run hv hrun).2
    have honce : s.heap.faulty = false ↔ ∀ c ∈ calls, ¬c.isAgain := by
      rw [hfaulty, Bool.false_or, List.any_eq_false]
    have hrestored : s.AllClosed → (s.heap.live = heap.live ↔ ∀ c ∈ calls, ¬c.opensDir) := by
      intro hclosed
      rw [(hclosed.left_native hv hrun).2, List.countP_eq_zero]
    constructor
    · intro htidy
      exact ⟨honce.mp htidy.once, fun hclosed => (hrestored hclosed).mp (htidy.restored hclosed)⟩
    · rintro ⟨hagain, hopens⟩
      exact ⟨fun _ _ _ _ _ _ _ hstep hc => hstep.live_eq_of_fails hv hc, honce.mpr hagain,
        fun hclosed => (hrestored hclosed).mpr (hopens hclosed)⟩

/-! ### One directory -/

def emptyHeap {σ : Type} (sys : σ) : Heap σ := ⟨sys, 0, ∅, fun _ h => absurd h (Finset.notMem_empty _), false⟩

/-- The native back end in `/out`, where `malloc` always succeeds. -/
def outNative : Vfs (Heap World) NativeFile NativeDir :=
  vfsNative (heapLibc fun _ w => (true, w)) (treePosix calmEnv).onHeap calmEnv.directory

/-- `/out` is opened and closed, and `closedir` returns 0. -/
def oneDirectory : List (SessionCall NativeFile NativeDir) :=
  let dir : NativeDir := ⟨0, 0, 1, calmEnv.directory ++ [slash, slash]⟩
  [.call (.opendir [slash] (some dir)), .call (.closedir (some dir) 0)]

theorem not_tidy_oneDirectory :
    ∃ s, Run (Step outNative) (start (emptyHeap (oneFile aName))) oneDirectory s ∧ s.AllClosed ∧
      ¬Tidy outNative (emptyHeap (oneFile aName)) oneDirectory s := by
  obtain ⟨s, hrun, hclosed⟩ : ∃ s, Run (Step outNative) (start (emptyHeap (oneFile aName)))
      oneDirectory s ∧ s.AllClosed :=
    ⟨_, .cons (.opendir rfl) (.cons (.closedir rfl rfl) .nil), rfl, rfl, rfl⟩
  refine ⟨s, hrun, hclosed, fun h => ?_⟩
  have hv := vfsNative_moves (fun _ w => (true, w)) (treePosix calmEnv) calmEnv.directory
  exact absurd ((hclosed.left_native hv hrun).2.mp (h.restored hclosed)) (by decide)

end Session

end LfsTool
