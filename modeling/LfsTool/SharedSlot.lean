import LfsTool.Calls
import LfsTool.Native
import LfsTool.Lfs

/-!
# LfsTool.SharedSlot

The one static `struct vfs_dirent` of a back end, against a walk in which every `readdir` returns a
copy of its own.

* `refTraversal`: that walk. It reads entries with a function `readEntry` that has no slot.
* `SharesSlot`: what a back end delivers through its slot is what `readEntry` returns. Nothing is
  asked of the slot when `readdir` fails, or of the bytes behind the terminator.
* `traversal_ref`: the two walks make the same calls and return the same, whatever is in the slot.
* `shared_slot_harmless`: so do they over the native and the littlefs back end, and the name in the
  slot is the one the file system reported.
-/

namespace LfsTool

open PathSyntax WalkState

/-! ## A walk with private entries -/

section Reference

variable {σ φ δ φ' δ' : Type}

/-- How a directory is read without a slot. -/
abbrev ReadEntry (σ δ : Type) := Option δ → σ → Option Entry × σ

namespace WalkState

def readEntry (read : ReadEntry σ δ) (dir : Option δ) (s : WalkState σ) :
    Option Entry × WalkState σ :=
  let r := read dir s.sys
  (r.1, { s with sys := r.2 })

def namePath (libc : Libc σ) (dir name : CString) (s : WalkState σ) :
    Option HeapString × WalkState σ :=
  let r := appendDirAlloc libc dir name s.sys
  (r.1, { s with sys := r.2 })

def withSlot (d : Dirent) (s : WalkState σ) : WalkState σ := { s with dirent := d }

end WalkState

variable (libc : Libc σ) (vfs : Vfs σ φ δ) (read : ReadEntry σ δ) (target : Vfs σ φ' δ')

def refProcessEntry (self : CString → WalkState σ → Option (Int × WalkState σ)) (fuel : Nat)
    (entry : Entry) (path : CString) (s : WalkState σ) : Option (Int × WalkState σ) :=
  if entry.type = .file then processFile vfs target fuel path s
  else if entry.name ≠ dot ∧ entry.name ≠ dotdot then self path s
  else some (0, s)

def refEntryLoop (self : CString → WalkState σ → Option (Int × WalkState σ)) (fuel : Nat)
    (dir : CString) (vfsDir : Option δ) :
    Nat → WalkState σ → Option (Int × Option HeapString × WalkState σ)
  | 0, _ => none
  | n + 1, s =>
    match s.readEntry read vfsDir with
    | (none, s) => some (-1, none, s)
    | (some entry, s) =>
      if entry.type = .endMark then some (0, none, s)
      else
        match s.namePath libc dir entry.name with
        | (none, s) => some (-1, none, s)
        | (some path, s) =>
          match refProcessEntry vfs target self fuel entry path.str s with
          | none => none
          | some (err, s) =>
            if err ≠ 0 then some (-1, some path, s)
            else refEntryLoop self fuel dir vfsDir n (s.freePath libc (some path))

/-- `traversal`, with a private copy of each entry. The slot of the state is not used. -/
def refTraversal : Nat → CString → WalkState σ → Option (Int × WalkState σ)
  | 0, _, _ => none
  | fuel + 1, dir, s =>
    let (err, s) := s.makeDir target dir
    if err ≠ 0 then some (traversalDone libc vfs none none (-1) s)
    else
      let (vfsDir, s) := s.openDir vfs dir
      if vfsDir.isNone then some (traversalDone libc vfs none vfsDir (-1) s)
      else
        match refEntryLoop libc vfs read target (refTraversal fuel) fuel dir vfsDir fuel s with
        | none => none
        | some (result, path, s) => some (traversalDone libc vfs path vfsDir result s)

end Reference

/-! ## The two walks -/

section Shared

variable {σ φ δ φ' δ' : Type}

/-- What `readdir` delivers through the slot is what `read` returns. -/
def SharesSlot (vfs : Vfs σ φ δ) (read : ReadEntry σ δ) : Prop :=
  ∀ dir slot w, ∃ slot', vfs.readdir dir slot w = (((read dir w).1.isSome, slot'), (read dir w).2) ∧
    ∀ entry, (read dir w).1 = some entry → slot'.entry = entry

variable {libc : Libc σ} {vfs : Vfs σ φ δ} {read : ReadEntry σ δ} {target : Vfs σ φ' δ'}
  (d : Dirent)

/-! What is in the slot does not matter to the other calls. -/

theorem openFile_withSlot (path : CString) (flags : Nat) (s : WalkState σ) :
    (s.withSlot d).openFile vfs path flags = (s.openFile vfs path flags).map id (withSlot d) := rfl

theorem closeFile_withSlot (fd : Option φ) (s : WalkState σ) :
    (s.withSlot d).closeFile vfs fd = (s.closeFile vfs fd).map id (withSlot d) := rfl

theorem readBuffer_withSlot (fd : Option φ) (s : WalkState σ) :
    (s.withSlot d).readBuffer vfs fd = (s.readBuffer vfs fd).map id (withSlot d) := rfl

theorem writeBuffer_withSlot (fd : Option φ) (rb : Int) (s : WalkState σ) :
    (s.withSlot d).writeBuffer vfs fd rb = (s.writeBuffer vfs fd rb).map id (withSlot d) := rfl

theorem copyLoop_withSlot (inn : Option φ) (out : Option φ') : ∀ (fuel : Nat) (s : WalkState σ),
    copyLoop vfs target inn out fuel (s.withSlot d) =
      (copyLoop vfs target inn out fuel s).map (Prod.map id (withSlot d)) := by
  intro fuel
  induction fuel with
  | zero => intro s; rfl
  | succ fuel ih =>
    intro s
    cases hr : s.readBuffer vfs inn with
    | mk rb s₁ =>
      have hr' : (s.withSlot d).readBuffer vfs inn = (rb, s₁.withSlot d) := by
        rw [readBuffer_withSlot, hr]; rfl
      cases hw : s₁.writeBuffer target out rb with
      | mk wb s₂ =>
        have hw' : (s₁.withSlot d).writeBuffer target out rb = (wb, s₂.withSlot d) := by
          rw [writeBuffer_withSlot, hw]; rfl
        simp only [copyLoop, hr, hr', hw, hw']
        split
        · split
          · rfl
          · split
            · rfl
            · exact ih _
        · rfl

theorem processFileDone_withSlot (inn : Option φ) (out : Option φ') (result : Int)
    (s : WalkState σ) :
    processFileDone vfs target inn out result (s.withSlot d) =
      (processFileDone vfs target inn out result s).map id (withSlot d) := by
  simp only [processFileDone, closeFile_withSlot, Prod.map, id_eq]
  split <;> split <;> rfl

theorem processFile_withSlot (fuel : Nat) (path : CString) (s : WalkState σ) :
    processFile vfs target fuel path (s.withSlot d) =
      (processFile vfs target fuel path s).map (Prod.map id (withSlot d)) := by
  cases ho : s.openFile target path (O_CREAT ||| O_TRUNC ||| O_WRONLY) with
  | mk out s₁ =>
    have ho' : (s.withSlot d).openFile target path (O_CREAT ||| O_TRUNC ||| O_WRONLY) =
        (out, s₁.withSlot d) := by
      rw [openFile_withSlot, ho]; rfl
    cases hi : s₁.openFile vfs path O_RDONLY with
    | mk inn s₂ =>
      have hi' : (s₁.withSlot d).openFile vfs path O_RDONLY = (inn, s₂.withSlot d) := by
        rw [openFile_withSlot, hi]; rfl
      simp only [processFile, ho, ho', hi, hi']
      split
      · rw [processFileDone_withSlot]; rfl
      · split
        · rw [processFileDone_withSlot]; rfl
        · rw [copyLoop_withSlot]
          cases copyLoop vfs target inn out fuel s₂ with
          | none => rfl
          | some r => simp only [Option.map_some, Prod.map, processFileDone_withSlot, id_eq]

theorem traversalDone_withSlot (path : Option HeapString) (vfsDir : Option δ) (result : Int)
    (s : WalkState σ) :
    traversalDone libc vfs path vfsDir result (s.withSlot d) =
      (traversalDone libc vfs path vfsDir result s).map id (withSlot d) := by
  simp only [traversalDone, Prod.map, id_eq]
  split <;> rfl

theorem readDir_ref (hread : SharesSlot vfs read) (dir : Option δ) (s : WalkState σ) :
    ∃ found s₁, s.readDir vfs dir = (found.isSome, s₁) ∧
      (s.withSlot d).readEntry read dir = (found, s₁.withSlot d) ∧
      ∀ entry, found = some entry → s₁.dirent.entry = entry := by
  obtain ⟨slot', hcall, hentry⟩ := hread dir s.dirent s.sys
  refine ⟨(read dir s.sys).1, { s with sys := (read dir s.sys).2, dirent := slot' }, ?_, rfl, hentry⟩
  simp only [readDir, hcall]

section Self

variable {self selfRef : CString → WalkState σ → Option (Int × WalkState σ)}

/-- The loop body looks at the entry before anything overwrites it. -/
theorem processEntry_ref
    (hself : ∀ dir s, selfRef dir (s.withSlot d) = (self dir s).map (Prod.map id (withSlot d)))
    (fuel : Nat) (path : CString) (s : WalkState σ) :
    refProcessEntry vfs target selfRef fuel s.dirent.entry path (s.withSlot d) =
      (processEntry vfs target self fuel path s).map (Prod.map id (withSlot d)) := by
  have htype : s.dirent.entry.type = s.dirent.type := rfl
  have hname : s.dirent.entry.name = cstr s.dirent.name := rfl
  rw [refProcessEntry, processEntry, htype, hname]
  by_cases hfile : s.dirent.type = .file
  · rw [if_pos hfile, if_pos hfile]
    exact processFile_withSlot d fuel path s
  · rw [if_neg hfile, if_neg hfile]
    by_cases hdots : cstr s.dirent.name ≠ dot ∧ cstr s.dirent.name ≠ dotdot
    · rw [if_pos hdots, if_pos hdots]
      exact hself path s
    · rw [if_neg hdots, if_neg hdots]
      rfl

theorem entryLoop_ref (hread : SharesSlot vfs read)
    (hself : ∀ dir s, selfRef dir (s.withSlot d) = (self dir s).map (Prod.map id (withSlot d)))
    (fuel : Nat) (dir : CString) (vfsDir : Option δ) : ∀ (n : Nat) (s : WalkState σ),
      refEntryLoop libc vfs read target selfRef fuel dir vfsDir n (s.withSlot d) =
        (entryLoop libc vfs target self fuel dir vfsDir n s).map
          (Prod.map id (Prod.map id (withSlot d))) := by
  intro n
  induction n with
  | zero => intro s; rfl
  | succ n ih =>
    intro s
    obtain ⟨found, s₁, hreadDir, hreadRef, hentry⟩ := readDir_ref d hread vfsDir s
    simp only [refEntryLoop, entryLoop, hreadDir, hreadRef]
    cases found with
    | none => rfl
    | some entry =>
      obtain rfl := hentry entry rfl
      simp only [Option.isSome_some, Bool.not_true, Bool.false_eq_true, if_false]
      by_cases hend : s₁.dirent.type = .endMark
      · have hend' : s₁.dirent.entry.type = .endMark := hend
        rw [if_pos hend, if_pos hend']
        rfl
      · have hend' : s₁.dirent.entry.type ≠ .endMark := hend
        rw [if_neg hend, if_neg hend']
        -- the path is joined from the entry, in the slot here and private there
        cases ha : s₁.entryPath libc dir with
        | mk path s₂ =>
          have hslot₂ : s₂.dirent = s₁.dirent := (entryPath_sys ha).2
          have ha' : (s₁.withSlot d).namePath libc dir s₁.dirent.entry.name =
              (path, s₂.withSlot d) := by
            cases ha; rfl
          rw [ha']
          cases path with
          | none => rfl
          | some path =>
            dsimp only
            rw [← hslot₂, processEntry_ref d hself]
            cases processEntry vfs target self fuel path.str s₂ with
            | none => rfl
            | some r =>
              simp only [Option.map_some, Prod.map, id_eq]
              split
              · rfl
              · exact ih (r.2.freePath libc (some path))

end Self

/-- The walk over a back end with a slot is the walk with private entries. -/
theorem traversal_ref (hread : SharesSlot vfs read) : ∀ (fuel : Nat) (dir : CString)
    (s : WalkState σ), refTraversal libc vfs read target fuel dir (s.withSlot d) =
      (traversal libc vfs target fuel dir s).map (Prod.map id (withSlot d)) := by
  intro fuel
  induction fuel with
  | zero => intro dir s; rfl
  | succ fuel ih =>
    intro dir s
    cases hm : s.makeDir target dir with
    | mk err s₁ =>
      have hm' : (s.withSlot d).makeDir target dir = (err, s₁.withSlot d) := by
        cases hm; rfl
      cases ho : s₁.openDir vfs dir with
      | mk vfsDir s₂ =>
        have ho' : (s₁.withSlot d).openDir vfs dir = (vfsDir, s₂.withSlot d) := by
          cases ho; rfl
        simp only [refTraversal, traversal, hm, hm', ho, ho']
        split
        · rw [traversalDone_withSlot]; rfl
        · split
          · rw [traversalDone_withSlot]; rfl
          · rw [entryLoop_ref d hread ih]
            cases entryLoop libc vfs target (traversal libc vfs target fuel) fuel dir vfsDir fuel s₂ with
            | none => rfl
            | some r =>
              simp only [Option.map_some, Prod.map, id_eq]
              rw [traversalDone_withSlot]
              rfl

/-- Whatever the slot holds after a `readdir` that fails. -/
def Vfs.leaving (vfs : Vfs σ φ δ) (junk : Option δ → Dirent → σ → Dirent) : Vfs σ φ δ :=
  { vfs with
    readdir := fun dir slot w =>
      let r := vfs.readdir dir slot w
      if r.1.1 then r else ((false, junk dir slot w), r.2) }

theorem SharesSlot.leaving (hread : SharesSlot vfs read) (junk : Option δ → Dirent → σ → Dirent) :
    SharesSlot (vfs.leaving junk) read := by
  intro dir slot w
  obtain ⟨slot', hcall, hentry⟩ := hread dir slot w
  simp only [Vfs.leaving, hcall]
  cases hfound : (read dir w).1 with
  | none => exact ⟨junk dir slot w, rfl, fun _ h => by cases h⟩
  | some entry =>
    refine ⟨slot', rfl, fun entry' h => hentry entry' ?_⟩
    rw [hfound, h]

def tracedRead {ε : Type} (read : ReadEntry σ δ) (ev : VfsCall φ δ → ε) : ReadEntry (Logged ε σ) δ :=
  fun dir w =>
    let r := read dir w.sys
    w.call r (ev (.readdir dir r.1))

theorem SharesSlot.traced {ε : Type} (hread : SharesSlot vfs read) (ev : VfsCall φ δ → ε) :
    SharesSlot (vfs.traced ev) (tracedRead read ev) := by
  intro dir slot w
  obtain ⟨slot', hcall, hentry⟩ := hread dir slot w.sys
  refine ⟨slot', ?_, hentry⟩
  simp only [Vfs.traced, tracedRead, hcall]
  cases hfound : (read dir w.sys).1 with
  | none => simp [Logged.call, hfound]
  | some entry =>
    obtain rfl := hentry entry hfound
    simp [Logged.call, hfound]

def refTrace (libc : Libc σ) (vfs : Vfs σ φ δ) (read : ReadEntry σ δ) (target : Vfs σ φ' δ')
    (fuel : Nat) (dir : CString) (s : WalkState σ) : Option (List (Call φ δ φ' δ')) :=
  (refTraversal libc.lift (vfs.traced .source) (tracedRead read .source) (target.traced .target) fuel
    dir s.unrecorded).map (·.2.sys.log)

/-- The two walks make the same calls, with the same arguments and results, and return the same, in
the same world. -/
structure SameWalk (libc : Libc σ) (vfs : Vfs σ φ δ) (read : ReadEntry σ δ) (target : Vfs σ φ' δ') :
    Prop where
  calls : ∀ fuel dir s,
    traversalTrace libc vfs target fuel dir s = refTrace libc vfs read target fuel dir s
  result : ∀ fuel dir s,
    (traversal libc vfs target fuel dir s).map (fun r => (r.1, r.2.sys)) =
      (refTraversal libc vfs read target fuel dir s).map (fun r => (r.1, r.2.sys))

/-- Started with what is in the slot already, the two differ in the slot only. -/
theorem SharesSlot.traversal_eq (hread : SharesSlot vfs read) (libc : Libc σ) (target : Vfs σ φ' δ')
    (fuel : Nat) (dir : CString) (s : WalkState σ) :
    refTraversal libc vfs read target fuel dir s =
      (traversal libc vfs target fuel dir s).map (Prod.map id (withSlot s.dirent)) :=
  traversal_ref s.dirent hread fuel dir s

theorem SharesSlot.sameWalk (hread : SharesSlot vfs read) (libc : Libc σ) (target : Vfs σ φ' δ') :
    SameWalk libc vfs read target where
  calls fuel dir s := by
    rw [refTrace, (hread.traced Call.source).traversal_eq, Option.map_map]
    rfl
  result fuel dir s := by
    rw [hread.traversal_eq, Option.map_map]
    rfl

end Shared

/-! ## The two back ends -/

section Backends

variable {σ φ δ φ' δ' : Type}

def nativeReadEntry (libc : Libc σ) (px : Posix σ) : ReadEntry σ NativeDir := fun dir w =>
  match dir with
  | none => (none, libc.free none w)
  | some vfsDir =>
    match px.readdir vfsDir.dir w with
    | (.error, w) => (none, libc.free none w)
    | (.endOfDir, w) => (some ⟨[], .endMark⟩, libc.free none w)
    | (.entry dName, w) =>
      match appendDirAlloc libc vfsDir.dirname.str dName w with
      | (none, w) => (none, libc.free none w)
      | (some buf, w) =>
        match px.stat buf.str w with
        | (none, w) => (none, libc.free (some buf.ptr) w)
        | (some mode, w) =>
          if ¬(mode = .reg ∨ mode = .dir) then (none, libc.free (some buf.ptr) w)
          else if ¬(dName.length < VFS_MAX_NAME_LEN) then (none, libc.free (some buf.ptr) w)
          else (some ⟨cstr dName, if mode = .reg then .file else .dir⟩, libc.free (some buf.ptr) w)

def lfsReadEntry (lf : Lfs σ) (lfs : Option Ptr) : ReadEntry σ Ptr := fun dir w =>
  match dir with
  | none => (none, w)
  | some lfsDir =>
    let ((err, info), w) := lf.dirRead lfs lfsDir w
    if ¬(err ≥ 0) then (none, w)
    else if err = 0 then (some ⟨[], .endMark⟩, w)
    else if ¬(info.name.length < VFS_MAX_NAME_LEN) then (none, w)
    else (some ⟨cstr info.name, if info.type = LFS_TYPE_REG then .file else .dir⟩, w)

theorem Dirent.setEntry_entry (d : Dirent) {name : CString} (hlen : name.length < VFS_MAX_NAME_LEN)
    (type : DirentType) : (d.setEntry name type).entry = ⟨cstr name, type⟩ := by
  rw [Dirent.entry, d.setEntry_name hlen]
  rfl

theorem Dirent.setEnd_entry (d : Dirent) : d.setEnd.entry = ⟨[], .endMark⟩ := by
  have hname : cstr (d.name.set 0 0) = [] := by
    cases d.name with
    | nil => rfl
    | cons c name => rfl
  rw [Dirent.entry, Dirent.setEnd, hname]

theorem vfsNative_shares (libc : Libc σ) (px : Posix σ) (contextPath : CString) :
    SharesSlot (vfsNative libc px contextPath) (nativeReadEntry libc px) := by
  intro dir slot w
  cases dir with
  | none => exact ⟨slot, rfl, fun _ h => by cases h⟩
  | some vfsDir =>
    simp only [vfsNative, nativeReaddir, nativeReadEntry]
    rcases px.readdir vfsDir.dir w with ⟨_ | _ | dName, w₁⟩
    · exact ⟨slot, rfl, fun _ h => by cases h⟩
    · exact ⟨slot.setEnd, rfl, fun _ h => by cases h; exact slot.setEnd_entry⟩
    · dsimp only
      rcases appendDirAlloc libc vfsDir.dirname.str dName w₁ with ⟨_ | buf, w₂⟩
      · exact ⟨slot, rfl, fun _ h => by cases h⟩
      · dsimp only
        rcases px.stat buf.str w₂ with ⟨_ | mode, w₃⟩
        · exact ⟨slot, rfl, fun _ h => by cases h⟩
        · dsimp only
          by_cases hmode : ¬(mode = .reg ∨ mode = .dir)
          · rw [if_pos hmode, if_pos hmode]
            exact ⟨slot, rfl, fun _ h => by cases h⟩
          · rw [if_neg hmode, if_neg hmode]
            by_cases hlen : ¬(dName.length < VFS_MAX_NAME_LEN)
            · rw [if_pos hlen, if_pos hlen]
              exact ⟨slot, rfl, fun _ h => by cases h⟩
            · rw [if_neg hlen, if_neg hlen]
              exact ⟨slot.setEntry dName (if mode = .reg then .file else .dir), rfl, fun _ h => by
                cases h; exact slot.setEntry_entry (not_not.mp hlen) _⟩

theorem vfsLfs_shares (libc : Libc σ) (lf : Lfs σ) (lfs : Option Ptr) :
    SharesSlot (vfsLfs libc lf lfs) (lfsReadEntry lf lfs) := by
  intro dir slot w
  cases dir with
  | none => exact ⟨slot, rfl, fun _ h => by cases h⟩
  | some lfsDir =>
    obtain ⟨err, info, w₁, hcall⟩ : ∃ err info w₁, lf.dirRead lfs lfsDir w = ((err, info), w₁) :=
      ⟨_, _, _, rfl⟩
    simp only [vfsLfs, lfsReaddir, lfsReadEntry, hcall]
    by_cases hneg : ¬(err ≥ 0)
    · rw [if_pos hneg, if_pos hneg]
      exact ⟨slot, rfl, fun _ h => by cases h⟩
    · rw [if_neg hneg, if_neg hneg]
      by_cases hend : err = 0
      · rw [if_pos hend, if_pos hend]
        exact ⟨slot.setEnd, rfl, fun _ h => by cases h; exact slot.setEnd_entry⟩
      · rw [if_neg hend, if_neg hend]
        by_cases hlen : ¬(info.name.length < VFS_MAX_NAME_LEN)
        · rw [if_pos hlen, if_pos hlen]
          exact ⟨slot, rfl, fun _ h => by cases h⟩
        · rw [if_neg hlen, if_neg hlen]
          exact ⟨slot.setEntry info.name (if info.type = LFS_TYPE_REG then .file else .dir), rfl,
            fun _ h => by cases h; exact slot.setEntry_entry (not_not.mp hlen) _⟩

/-- An entry that `readdir` delivers has the name that `reported` says the file system gave. -/
def DeliversName (vfs : Vfs σ φ δ) (reported : δ → σ → Option CString) : Prop :=
  ∀ dir slot slot' w w', vfs.readdir (some dir) slot w = ((true, slot'), w') →
    slot'.type ≠ .endMark → (reported dir w).map cstr = some (cstr slot'.name)

def nativeReported (px : Posix σ) (dir : NativeDir) (w : σ) : Option CString :=
  match (px.readdir dir.dir w).1 with
  | .entry dName => some dName
  | _ => none

def lfsReported (lf : Lfs σ) (lfs : Option Ptr) (dir : Ptr) (w : σ) : Option CString :=
  let (err, info) := (lf.dirRead lfs dir w).1
  if err > 0 then some info.name else none

theorem vfsNative_deliversName (libc : Libc σ) (px : Posix σ) (contextPath : CString) :
    DeliversName (vfsNative libc px contextPath) (nativeReported px) := by
  intro dir slot slot' w w' h hend
  have hl : LibcKeeps libc fun _ => () := ⟨fun _ _ => rfl, fun _ _ => rfl⟩
  obtain ⟨o, w₁, hread, hcases⟩ := nativeReaddir_cases hl h
  rw [nativeReported, hread]
  rcases hcases with ⟨-, hfail, -⟩ | ⟨-, -, rfl, -⟩ | ⟨dName, rfl, ⟨hfail, -⟩ | hentry⟩
  · cases hfail
  · exact absurd rfl hend
  · cases hfail
  · obtain ⟨_, _, mode, _, _, _, hfail | ⟨_, hlen, ⟨_, rfl⟩ | ⟨_, rfl⟩⟩⟩ := hentry
    · cases hfail
    · rw [slot.setEntry_name hlen]; rfl
    · rw [slot.setEntry_name hlen]; rfl

theorem vfsLfs_deliversName (libc : Libc σ) (lf : Lfs σ) (lfs : Option Ptr) :
    DeliversName (vfsLfs libc lf lfs) (lfsReported lf lfs) := by
  intro dir slot slot' w w' h hend
  obtain ⟨err, info, hread, hcases⟩ := lfsReaddir_cases h
  rw [lfsReported, hread]
  rcases hcases with ⟨hfail, -⟩ | ⟨-, -, rfl⟩ | ⟨-, hpos, hlen, rfl⟩
  · cases hfail
  · exact absurd rfl hend
  · rw [slot.setEntry_name hlen]
    simp only [gt_iff_lt, if_pos hpos, Option.map_some]

theorem shared_slot_harmless (libc : Libc σ) (px : Posix σ) (contextPath : CString) (lf : Lfs σ)
    (lfs : Option Ptr) (target : Vfs σ φ' δ') :
    SameWalk libc (vfsNative libc px contextPath) (nativeReadEntry libc px) target ∧
    (∀ junk, SameWalk libc ((vfsNative libc px contextPath).leaving junk) (nativeReadEntry libc px)
      target) ∧
    DeliversName (vfsNative libc px contextPath) (nativeReported px) ∧
    SameWalk libc (vfsLfs libc lf lfs) (lfsReadEntry lf lfs) target ∧
    (∀ junk, SameWalk libc ((vfsLfs libc lf lfs).leaving junk) (lfsReadEntry lf lfs) target) ∧
    DeliversName (vfsLfs libc lf lfs) (lfsReported lf lfs) := by
  have hnative := vfsNative_shares libc px contextPath
  have hlfs := vfsLfs_shares libc lf lfs
  exact ⟨hnative.sameWalk libc target, fun junk => (hnative.leaving junk).sameWalk libc target,
    vfsNative_deliversName libc px contextPath, hlfs.sameWalk libc target,
    fun junk => (hlfs.leaving junk).sameWalk libc target, vfsLfs_deliversName libc lf lfs⟩

end Backends

end LfsTool
