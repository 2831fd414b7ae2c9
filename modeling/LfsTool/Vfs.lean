import Mathlib.Data.List.TakeWhile
import LfsTool.Lib.PathSyntax

/-!
# LfsTool.Vfs

The interface of `vfs.h` and the string helpers of `util.c`, over an arbitrary state `σ` of the
world outside the program.

A function pointer of `struct vfs` is a function on states. A `void *` handle is an `Option`, so
NULL is a value. What C passes through a pointer is passed explicitly: `read` takes the contents of
the caller's buffer and returns the new contents, `readdir` takes and returns the contents of the
back end's one static `struct vfs_dirent`.

* `Vfs σ φ δ`: the file system operations of a back end with file handles `φ` and directory
  handles `δ`. `mount` and `unmount` set and drop `opaque`; they are modelled with `main`.
* `joinPath`, `appendDirAlloc`: `append_dir_alloc`, and what it does to the components of a path.
-/

namespace LfsTool

open PathSyntax

abbrev CString := List UInt8

abbrev Ptr := Nat

/-! ## `fcntl.h` -/

abbrev O_RDONLY : Nat := 0
abbrev O_WRONLY : Nat := 1
abbrev O_RDWR : Nat := 2
abbrev O_CREAT : Nat := 64
abbrev O_TRUNC : Nat := 512
abbrev O_APPEND : Nat := 1024

/-! ## C strings -/

/-- The string at the start of a character array. -/
def cstr (array : List UInt8) : CString := array.takeWhile (· ≠ 0)

def strncpy (dst : List UInt8) (src : CString) (n : Nat) : List UInt8 :=
  src.take n ++ List.replicate (n - src.length) 0 ++ dst.drop n

theorem strncpy_drop (dst : List UInt8) (src : CString) (n : Nat) :
    (strncpy dst src n).drop n = dst.drop n := by
  have hlen : (src.take n ++ List.replicate (n - src.length) (0 : UInt8)).length = n := by
    rw [List.length_append, List.length_take, List.length_replicate]; omega
  rw [strncpy, List.drop_append_of_le_length (by omega), List.drop_eq_nil_of_le (by omega),
    List.nil_append]

theorem cstr_of_nul_not_mem {s : List UInt8} (h : (0 : UInt8) ∉ s) : cstr s = s := by
  rw [cstr, List.takeWhile_eq_self_iff]
  intro c hc
  simpa using fun h0 : c = 0 => h (h0 ▸ hc)

theorem cstr_append {s t : List UInt8} (ht : cstr t = []) : cstr (s ++ t) = cstr s := by
  rw [cstr, List.takeWhile_append]
  split
  · rename_i hlen
    have hs : s.takeWhile (· ≠ 0) = s := (List.takeWhile_prefix _).eq_of_length hlen
    have ht' : t.takeWhile (· ≠ 0) = [] := ht
    rw [ht', List.append_nil]
    exact hs.symm
  · rfl

theorem cstr_strncpy {dst : List UInt8} {src : CString} {n : Nat} (hlen : src.length ≤ n)
    (hdst : cstr (dst.drop n) = []) : cstr (strncpy dst src n) = cstr src := by
  rw [strncpy, List.take_of_length_le hlen, List.append_assoc]
  refine cstr_append ?_
  cases n - src.length with
  | zero => exact hdst
  | succ k => simp [cstr, List.replicate_succ]

/-! ## `vfs.h` -/

abbrev VFS_MAX_NAME_LEN : Nat := 512

/-- `vfs_dirent_type_t`: `VFS_TYPE_END`, `VFS_TYPE_FILE`, `VFS_TYPE_DIR`. -/
inductive DirentType where
  | endMark
  | file
  | dir
  deriving DecidableEq, Repr

/-- `struct vfs_dirent`; `name` is the whole character array. Nothing writes its last byte. -/
structure Dirent where
  name : List UInt8
  type : DirentType
  terminated : cstr (name.drop (VFS_MAX_NAME_LEN - 1)) = []

def Dirent.zero : Dirent where
  name := List.replicate VFS_MAX_NAME_LEN 0
  type := .endMark
  terminated := by rw [List.drop_replicate]; rfl

def Dirent.setEnd (d : Dirent) : Dirent where
  name := d.name.set 0 0
  type := .endMark
  terminated := by rw [List.drop_set_of_lt (by decide)]; exact d.terminated

def Dirent.setEntry (d : Dirent) (name : CString) (type : DirentType) : Dirent where
  name := strncpy d.name name (VFS_MAX_NAME_LEN - 1)
  type := type
  terminated := by rw [strncpy_drop]; exact d.terminated

theorem Dirent.setEntry_name (d : Dirent) {name : CString} (hlen : name.length < VFS_MAX_NAME_LEN)
    (type : DirentType) : cstr (d.setEntry name type).name = cstr name :=
  cstr_strncpy (Nat.le_sub_one_of_lt hlen) d.terminated

/-- `struct vfs` without `opaque`, `mount` and `unmount`. -/
structure Vfs (σ φ δ : Type) where
  open_ : CString → Nat → σ → Option φ × σ
  close : Option φ → σ → Int × σ
  /-- The number of bytes read or a negative error, and the new contents of the buffer. -/
  read : Option φ → List UInt8 → Nat → σ → (Int × List UInt8) × σ
  write : Option φ → List UInt8 → Nat → σ → Int × σ
  opendir : CString → σ → Option δ × σ
  closedir : Option δ → σ → Int × σ
  /-- Whether the pointer returned is not NULL, and the new contents of the static entry. -/
  readdir : Option δ → Dirent → σ → (Bool × Dirent) × σ
  mkdir : CString → σ → Int × σ

/-- What `read` returns and leaves in the buffer when the call below it fails or yields bytes. -/
inductive ReadBack (buf : List UInt8) : Option (List UInt8) → Int → List UInt8 → Prop where
  | error {rb : Int} {buf' : List UInt8} : rb < 0 → ReadBack buf none rb buf'
  | bytes {data : List UInt8} :
      ReadBack buf (some data) data.length (data ++ buf.drop data.length)

/-- What `write` returns when the call below it fails or stores some bytes. -/
inductive WriteBack : Option Nat → Int → Prop where
  | error {wb : Int} : wb < 0 → WriteBack none wb
  | stored {m : Nat} : WriteBack (some m) m

/-- The calls of a back end leave what `f` shows alone. -/
structure VfsKeeps {σ φ δ α : Type} (v : Vfs σ φ δ) (f : σ → α) : Prop where
  open_ : ∀ path flags w, f (v.open_ path flags w).2 = f w
  close : ∀ fd w, f (v.close fd w).2 = f w
  read : ∀ fd buf n w, f (v.read fd buf n w).2 = f w
  write : ∀ fd buf n w, f (v.write fd buf n w).2 = f w
  opendir : ∀ path w, f (v.opendir path w).2 = f w
  closedir : ∀ dir w, f (v.closedir dir w).2 = f w
  readdir : ∀ dir slot w, f (v.readdir dir slot w).2 = f w
  mkdir : ∀ path w, f (v.mkdir path w).2 = f w

/-! ## `util.c` -/

structure Libc (σ : Type) where
  malloc : Nat → σ → Option Ptr × σ
  free : Option Ptr → σ → σ

/-- The allocator leaves what `f` shows alone. -/
structure LibcKeeps {σ α : Type} (libc : Libc σ) (f : σ → α) : Prop where
  malloc : ∀ n w, f (libc.malloc n w).2 = f w
  free : ∀ p w, f (libc.free p w) = f w

theorem LibcKeeps.comp {σ α β : Type} {libc : Libc σ} {f : σ → α} (h : LibcKeeps libc f)
    (g : α → β) : LibcKeeps libc fun w => g (f w) :=
  ⟨fun n w => congrArg g (h.malloc n w), fun p w => congrArg g (h.free p w)⟩

structure HeapString where
  ptr : Ptr
  str : CString
  deriving DecidableEq

/-- What `append_dir_alloc` copies into the new string. -/
def joinPath (dir path : CString) : CString :=
  (if dir.length > 0 ∧ dir.getLast? ≠ some slash then dir ++ [slash] else dir) ++ path

def appendDirAlloc {σ : Type} (libc : Libc σ) (dir path : CString) (w : σ) :
    Option HeapString × σ :=
  let resultSize := dir.length + path.length + 1 + 1
  match libc.malloc resultSize w with
  | (none, w) => (none, w)
  | (some ptr, w) => (some ⟨ptr, joinPath dir path⟩, w)

theorem appendDirAlloc_some {σ : Type} {libc : Libc σ} {dir path : CString} {w w' : σ}
    {r : HeapString} (h : appendDirAlloc libc dir path w = (some r, w')) :
    r.str = joinPath dir path := by
  simp only [appendDirAlloc] at h
  split at h <;> cases h
  rfl

theorem appendDirAlloc_world {σ : Type} (libc : Libc σ) (dir path : CString) (w : σ) :
    (appendDirAlloc libc dir path w).2 = (libc.malloc (dir.length + path.length + 1 + 1) w).2 := by
  simp only [appendDirAlloc]
  split <;> simp_all

theorem appendDirAlloc_isSome {σ : Type} (libc : Libc σ) (dir path : CString) (w : σ) :
    (appendDirAlloc libc dir path w).1.isSome =
      (libc.malloc (dir.length + path.length + 1 + 1) w).1.isSome := by
  simp only [appendDirAlloc]
  split <;> simp_all

theorem LibcKeeps.append {σ α : Type} {libc : Libc σ} {f : σ → α} (h : LibcKeeps libc f)
    (dir path : CString) (w : σ) : f (appendDirAlloc libc dir path w).2 = f w := by
  rw [appendDirAlloc_world]
  exact h.malloc _ _

theorem components_joinPath (dir path : CString) :
    components (joinPath dir path) = components dir ++ components path := by
  unfold joinPath
  by_cases hlast : dir.getLast? = some slash
  · rw [if_neg (fun h => h.2 hlast), components_append_of_getLast hlast]
  · split
    · rw [List.append_assoc, List.singleton_append, components_append_slash]
    · have hnil : dir = [] := by simp_all
      rw [hnil, components_nil, List.nil_append, List.nil_append]

theorem isAbsolute_joinPath {dir : CString} (h : dir ≠ []) (path : CString) :
    isAbsolute (joinPath dir path) = isAbsolute dir := by
  obtain ⟨c, d, rfl⟩ := List.exists_cons_of_ne_nil h
  unfold joinPath isAbsolute
  split <;> simp

@[simp] theorem joinPath_nil (path : CString) : joinPath [] path = path := rfl

theorem joinPath_ne_nil (dir : CString) {path : CString} (h : path ≠ []) :
    joinPath dir path ≠ [] := by
  unfold joinPath
  exact fun hnil => h (List.append_eq_nil_iff.mp hnil).2

end LfsTool
