import LfsTool.WalkRun

/-!
# LfsTool.Logged

Runs with a record of the calls made.

* `Logged ε σ`: a world with a list of events. `Vfs.logged` is a back end that also records each of
  its calls, and whether it succeeded.
* `VfsHom`, `traversal_map`: a map of worlds that takes the calls of one pair of back ends to those of
  another takes the walk over the one to the walk over the other. So forgetting the record of a
  logged run gives the run of the program.
-/

namespace LfsTool

open WalkState

/-! ## Maps of worlds -/

section Hom

variable {σ σ' φ δ φ' δ' : Type}

structure LibcHom (f : σ' → σ) (libc' : Libc σ') (libc : Libc σ) : Prop where
  malloc : ∀ n w, libc.malloc n (f w) = (libc'.malloc n w).map id f
  free : ∀ p w, libc.free p (f w) = f (libc'.free p w)

structure VfsHom (f : σ' → σ) (v' : Vfs σ' φ δ) (v : Vfs σ φ δ) : Prop where
  open_ : ∀ path flags w, v.open_ path flags (f w) = (v'.open_ path flags w).map id f
  close : ∀ fd w, v.close fd (f w) = (v'.close fd w).map id f
  read : ∀ fd buf n w, v.read fd buf n (f w) = (v'.read fd buf n w).map id f
  write : ∀ fd buf n w, v.write fd buf n (f w) = (v'.write fd buf n w).map id f
  opendir : ∀ path w, v.opendir path (f w) = (v'.opendir path w).map id f
  closedir : ∀ dir w, v.closedir dir (f w) = (v'.closedir dir w).map id f
  readdir : ∀ dir slot w, v.readdir dir slot (f w) = (v'.readdir dir slot w).map id f
  mkdir : ∀ path w, v.mkdir path (f w) = (v'.mkdir path w).map id f

namespace WalkState

def map (f : σ' → σ) (s : WalkState σ') : WalkState σ := ⟨f s.sys, s.mBuffer, s.dirent⟩

variable {f : σ' → σ} {v' : Vfs σ' φ δ} {v : Vfs σ φ δ} {libc' : Libc σ'} {libc : Libc σ}

theorem openFile_map (hv : VfsHom f v' v) (path : CString) (flags : Nat) (s : WalkState σ') :
    (s.map f).openFile v path flags = (s.openFile v' path flags).map id (map f) := by
  simp only [openFile, map, hv.open_]
  rfl

theorem closeFile_map (hv : VfsHom f v' v) (fd : Option φ) (s : WalkState σ') :
    (s.map f).closeFile v fd = (s.closeFile v' fd).map id (map f) := by
  simp only [closeFile, map, hv.close]
  rfl

theorem readBuffer_map (hv : VfsHom f v' v) (fd : Option φ) (s : WalkState σ') :
    (s.map f).readBuffer v fd = (s.readBuffer v' fd).map id (map f) := by
  simp only [readBuffer, map, hv.read]
  rfl

theorem writeBuffer_map (hv : VfsHom f v' v) (fd : Option φ) (rb : Int) (s : WalkState σ') :
    (s.map f).writeBuffer v fd rb = (s.writeBuffer v' fd rb).map id (map f) := by
  simp only [writeBuffer, map, hv.write]
  rfl

theorem openDir_map (hv : VfsHom f v' v) (path : CString) (s : WalkState σ') :
    (s.map f).openDir v path = (s.openDir v' path).map id (map f) := by
  simp only [openDir, map, hv.opendir]
  rfl

theorem closeDir_map (hv : VfsHom f v' v) (dir : Option δ) (s : WalkState σ') :
    (s.map f).closeDir v dir = (s.closeDir v' dir).map id (map f) := by
  simp only [closeDir, map, hv.closedir]
  rfl

theorem readDir_map (hv : VfsHom f v' v) (dir : Option δ) (s : WalkState σ') :
    (s.map f).readDir v dir = (s.readDir v' dir).map id (map f) := by
  simp only [readDir, map, hv.readdir]
  rfl

theorem makeDir_map (hv : VfsHom f v' v) (path : CString) (s : WalkState σ') :
    (s.map f).makeDir v path = (s.makeDir v' path).map id (map f) := by
  simp only [makeDir, map, hv.mkdir]
  rfl

theorem appendDirAlloc_map (hl : LibcHom f libc' libc) (dir path : CString) (w : σ') :
    appendDirAlloc libc dir path (f w) = (appendDirAlloc libc' dir path w).map id f := by
  simp only [appendDirAlloc, hl.malloc]
  rcases libc'.malloc (dir.length + path.length + 1 + 1) w with ⟨_ | ptr, w₁⟩ <;> rfl

theorem entryPath_map (hl : LibcHom f libc' libc) (dir : CString) (s : WalkState σ') :
    (s.map f).entryPath libc dir = (s.entryPath libc' dir).map id (map f) := by
  simp only [entryPath, map, appendDirAlloc_map hl]
  rfl

theorem freePath_map (hl : LibcHom f libc' libc) (path : Option HeapString) (s : WalkState σ') :
    (s.map f).freePath libc path = (s.freePath libc' path).map f := by
  simp only [freePath, map, hl.free]

end WalkState

section Walk

variable {f : σ' → σ} {libc' : Libc σ'} {libc : Libc σ} {vfs' : Vfs σ' φ δ} {vfs : Vfs σ φ δ}
  {target' : Vfs σ' φ' δ'} {target : Vfs σ φ' δ'}

theorem copyLoop_map (hv : VfsHom f vfs' vfs) (ht : VfsHom f target' target) (inn : Option φ)
    (out : Option φ') : ∀ (fuel : Nat) (s : WalkState σ'),
      copyLoop vfs target inn out fuel (s.map f) =
        (copyLoop vfs' target' inn out fuel s).map (Prod.map id (WalkState.map f)) := by
  intro fuel
  induction fuel with
  | zero => intro s; rfl
  | succ fuel ih =>
    intro s
    simp only [copyLoop, readBuffer_map hv, Prod.map, id_eq, writeBuffer_map ht]
    split
    · split
      · rfl
      · split
        · rfl
        · exact ih _
    · rfl

theorem processFileDone_map (hv : VfsHom f vfs' vfs) (ht : VfsHom f target' target)
    (inn : Option φ) (out : Option φ') (result : Int) (s : WalkState σ') :
    processFileDone vfs target inn out result (s.map f) =
      (processFileDone vfs' target' inn out result s).map id (WalkState.map f) := by
  simp only [processFileDone, closeFile_map hv, Prod.map, id_eq]
  split <;> split <;> simp only [closeFile_map ht, Prod.map, id_eq]

theorem processFile_map (hv : VfsHom f vfs' vfs) (ht : VfsHom f target' target) (fuel : Nat)
    (path : CString) (s : WalkState σ') :
    processFile vfs target fuel path (s.map f) =
      (processFile vfs' target' fuel path s).map (Prod.map id (WalkState.map f)) := by
  simp only [processFile, openFile_map ht, openFile_map hv, Prod.map, id_eq]
  split
  · rw [processFileDone_map hv ht]; rfl
  · split
    · rw [processFileDone_map hv ht]; rfl
    · rw [copyLoop_map hv ht]
      cases copyLoop vfs' target' _ _ fuel _ with
      | none => rfl
      | some r => simp only [Option.map_some, Prod.map, processFileDone_map hv ht, id_eq]

section Self

variable {self' : CString → WalkState σ' → Option (Int × WalkState σ')}
  {self : CString → WalkState σ → Option (Int × WalkState σ)}

theorem processEntry_map (hv : VfsHom f vfs' vfs) (ht : VfsHom f target' target)
    (hself : ∀ dir s, self dir (s.map f) = (self' dir s).map (Prod.map id (WalkState.map f)))
    (fuel : Nat) (path : CString) (s : WalkState σ') :
    processEntry vfs target self fuel path (s.map f) =
      (processEntry vfs' target' self' fuel path s).map (Prod.map id (WalkState.map f)) := by
  have hdirent : (s.map f).dirent = s.dirent := rfl
  simp only [processEntry, hdirent]
  split
  · exact processFile_map hv ht fuel path s
  · split
    · exact hself path s
    · rfl

theorem entryLoop_map (hl : LibcHom f libc' libc) (hv : VfsHom f vfs' vfs)
    (ht : VfsHom f target' target)
    (hself : ∀ dir s, self dir (s.map f) = (self' dir s).map (Prod.map id (WalkState.map f)))
    (fuel : Nat) (dir : CString) (vfsDir : Option δ) : ∀ (n : Nat) (s : WalkState σ'),
      entryLoop libc vfs target self fuel dir vfsDir n (s.map f) =
        (entryLoop libc' vfs' target' self' fuel dir vfsDir n s).map
          (Prod.map id (Prod.map id (WalkState.map f))) := by
  intro n
  induction n with
  | zero => intro s; rfl
  | succ n ih =>
    intro s
    simp only [entryLoop, readDir_map hv, Prod.map, id_eq]
    split
    · rfl
    · have hdirent : ((s.readDir vfs' vfsDir).2.map f).dirent = (s.readDir vfs' vfsDir).2.dirent := rfl
      rw [hdirent]
      split
      · rfl
      · rw [entryPath_map hl]
        rcases (s.readDir vfs' vfsDir).2.entryPath libc' dir with ⟨_ | path, s₁⟩
        · rfl
        · simp only [Prod.map, id_eq]
          rw [processEntry_map hv ht hself]
          rcases processEntry vfs' target' self' fuel path.str s₁ with _ | ⟨err, s₂⟩
          · rfl
          · simp only [Option.map_some, Prod.map, id_eq]
            split
            · rfl
            · rw [freePath_map hl]
              exact ih _

theorem traversalDone_map (hl : LibcHom f libc' libc) (hv : VfsHom f vfs' vfs)
    (path : Option HeapString) (vfsDir : Option δ) (result : Int) (s : WalkState σ') :
    traversalDone libc vfs path vfsDir result (s.map f) =
      (traversalDone libc' vfs' path vfsDir result s).map id (WalkState.map f) := by
  simp only [traversalDone, freePath_map hl, closeDir_map hv, Prod.map, id_eq]
  split <;> rfl

theorem traversalBody_map (hl : LibcHom f libc' libc) (hv : VfsHom f vfs' vfs)
    (ht : VfsHom f target' target)
    (hself : ∀ dir s, self dir (s.map f) = (self' dir s).map (Prod.map id (WalkState.map f)))
    (fuel : Nat) (dir : CString) (s : WalkState σ') :
    traversalBody libc vfs target self fuel dir (s.map f) =
      (traversalBody libc' vfs' target' self' fuel dir s).map (Prod.map id (WalkState.map f)) := by
  simp only [traversalBody, makeDir_map ht, openDir_map hv, Prod.map, id_eq]
  split
  · rw [traversalDone_map hl hv]; rfl
  · split
    · rw [traversalDone_map hl hv]; rfl
    · rw [entryLoop_map hl hv ht hself]
      rcases entryLoop libc' vfs' target' self' fuel dir _ fuel _ with _ | ⟨result, path, s₁⟩
      · rfl
      · simp only [Option.map_some, Prod.map, id_eq]
        rw [traversalDone_map hl hv]
        rfl

end Self

theorem traversal_map (hl : LibcHom f libc' libc) (hv : VfsHom f vfs' vfs)
    (ht : VfsHom f target' target) : ∀ (fuel : Nat) (dir : CString) (s : WalkState σ'),
      traversal libc vfs target fuel dir (s.map f) =
        (traversal libc' vfs' target' fuel dir s).map (Prod.map id (WalkState.map f)) := by
  intro fuel
  induction fuel with
  | zero => intro dir s; rfl
  | succ fuel ih =>
    intro dir s
    rw [traversal_succ, traversal_succ]
    exact traversalBody_map hl hv ht ih fuel dir s

end Walk

end Hom

/-! ## Worlds with a record -/

/-- A world and the events recorded so far. -/
structure Logged (ε σ : Type) where
  sys : σ
  log : List ε

namespace Logged

variable {ε σ α : Type}

/-- The world after a call, with the call recorded. -/
def call (w : Logged ε σ) (r : α × σ) (e : ε) : α × Logged ε σ := (r.1, ⟨r.2, w.log ++ [e]⟩)

/-- The world after a call that leaves no record. -/
def lift (w : Logged ε σ) (r : α × σ) : α × Logged ε σ := (r.1, ⟨r.2, w.log⟩)

/-- What `g` shows of the world, and the record. -/
def view (g : σ → α) (w : Logged ε σ) : α × List ε := (g w.sys, w.log)

end Logged

/-- A state whose record is still empty. -/
def WalkState.unrecorded {ε σ : Type} (s : WalkState σ) : WalkState (Logged ε σ) :=
  ⟨⟨s.sys, []⟩, s.mBuffer, s.dirent⟩

/-- An allocator that leaves no record. -/
def Libc.lift {ε σ : Type} (libc : Libc σ) : Libc (Logged ε σ) where
  malloc n w := w.lift (libc.malloc n w.sys)
  free p w := { w with sys := libc.free p w.sys }

theorem Libc.lift_hom {ε σ : Type} (libc : Libc σ) :
    LibcHom Logged.sys (libc.lift : Libc (Logged ε σ)) libc :=
  ⟨fun _ _ => rfl, fun _ _ => rfl⟩

theorem Libc.lift_view {ε σ α : Type} {libc : Libc σ} {g : σ → α} (h : LibcKeeps libc g) :
    LibcKeeps (libc.lift : Libc (Logged ε σ)) (Logged.view g) :=
  ⟨fun n w => congrArg (·, w.log) (h.malloc n w.sys), fun p w => congrArg (·, w.log) (h.free p w.sys)⟩

theorem Libc.lift_keeps {ε σ : Type} (libc : Libc σ) :
    LibcKeeps (libc.lift : Libc (Logged ε σ)) Logged.log :=
  ⟨fun _ _ => rfl, fun _ _ => rfl⟩

end LfsTool
