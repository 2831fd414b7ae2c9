import LfsTool.Walk

/-!
# LfsTool.WalkRun

The runs of `process_file` and `traversal` as relations, one constructor for each way a step can go.
They are what every proof about the walk is an induction on.

* `CopyRun`, `FileRun`: the copy loop and `process_file`.
* `WalkRun`: `traversal`, its entry loop and the body of that loop, told apart by a `Task`. A run of
  the entry loop includes the `free(path)` under `done`.
* `processFile_run`, `traversal_run`: what the functions compute is a run.
* `WalkRun.computed`: with enough fuel the functions compute every run.
* `FileRun.result`, `WalkRun.result`: the result is 0 or -1.
* `WalkRun.keeps`: a run leaves alone what the calls of both back ends leave alone.
-/

namespace LfsTool

open PathSyntax WalkState

section WalkRun

variable {σ φ δ φ' δ' : Type}

/-- A run of the copy loop from the read on. -/
inductive CopyRun (vfs : Vfs σ φ δ) (target : Vfs σ φ' δ') (inn : Option φ) (out : Option φ') :
    WalkState σ → Int → WalkState σ → Prop where
  | readFail {s s₁ : WalkState σ} {rb : Int} : s.readBuffer vfs inn = (rb, s₁) → rb < 0 →
      CopyRun vfs target inn out s (-1) s₁
  | writeFail {s s₁ s₂ : WalkState σ} {rb wb : Int} : s.readBuffer vfs inn = (rb, s₁) → 0 ≤ rb →
      s₁.writeBuffer target out rb = (wb, s₂) → wb ≠ rb → CopyRun vfs target inn out s (-1) s₂
  | last {s s₁ s₂ : WalkState σ} {rb : Int} : s.readBuffer vfs inn = (rb, s₁) → 0 ≤ rb →
      s₁.writeBuffer target out rb = (rb, s₂) → rb ≠ bufferSize → CopyRun vfs target inn out s 0 s₂
  | more {s s₁ s₂ s₃ : WalkState σ} {rb r : Int} : s.readBuffer vfs inn = (rb, s₁) → 0 ≤ rb →
      s₁.writeBuffer target out rb = (rb, s₂) → rb = bufferSize →
      CopyRun vfs target inn out s₂ r s₃ → CopyRun vfs target inn out s r s₃

/-- A run of `process_file`. -/
inductive FileRun (vfs : Vfs σ φ δ) (target : Vfs σ φ' δ') (path : CString) :
    WalkState σ → Int → WalkState σ → Prop where
  | outFail {s s₁ : WalkState σ} :
      s.openFile target path (O_CREAT ||| O_TRUNC ||| O_WRONLY) = (none, s₁) →
      FileRun vfs target path s (-1) s₁
  | inFail {s s₁ s₂ : WalkState σ} {out : φ'} :
      s.openFile target path (O_CREAT ||| O_TRUNC ||| O_WRONLY) = (some out, s₁) →
      s₁.openFile vfs path O_RDONLY = (none, s₂) →
      FileRun vfs target path s (-1) (s₂.closeFile target (some out)).2
  | copied {s s₁ s₂ s₃ : WalkState σ} {out : φ'} {inn : φ} {r : Int} :
      s.openFile target path (O_CREAT ||| O_TRUNC ||| O_WRONLY) = (some out, s₁) →
      s₁.openFile vfs path O_RDONLY = (some inn, s₂) →
      CopyRun vfs target (some inn) (some out) s₂ r s₃ →
      FileRun vfs target path s r
        ((s₃.closeFile vfs (some inn)).2.closeFile target (some out)).2

/-- What a run of the walk is a run of. -/
inductive Task (δ : Type) where
  /-- `traversal` of a directory -/
  | tree (dir : CString)
  /-- the entry loop of a directory from a `readdir` on -/
  | entries (dir : CString) (vfsDir : δ)
  /-- the loop body for the entry in the static slot -/
  | entry (path : CString)

inductive WalkRun (libc : Libc σ) (vfs : Vfs σ φ δ) (target : Vfs σ φ' δ') :
    Task δ → WalkState σ → Int → WalkState σ → Prop where
  | mkdirFail {dir : CString} {s s₁ : WalkState σ} {err : Int} :
      s.makeDir target dir = (err, s₁) → err ≠ 0 →
      WalkRun libc vfs target (.tree dir) s (-1) (s₁.freePath libc none)
  | opendirFail {dir : CString} {s s₁ s₂ : WalkState σ} :
      s.makeDir target dir = (0, s₁) → s₁.openDir vfs dir = (none, s₂) →
      WalkRun libc vfs target (.tree dir) s (-1) (s₂.freePath libc none)
  | opened {dir : CString} {s s₁ s₂ s₃ : WalkState σ} {vfsDir : δ} {r : Int} :
      s.makeDir target dir = (0, s₁) → s₁.openDir vfs dir = (some vfsDir, s₂) →
      WalkRun libc vfs target (.entries dir vfsDir) s₂ r s₃ →
      WalkRun libc vfs target (.tree dir) s r (s₃.closeDir vfs (some vfsDir)).2
  | readdirFail {dir : CString} {vfsDir : δ} {s s₁ : WalkState σ} :
      s.readDir vfs (some vfsDir) = (false, s₁) →
      WalkRun libc vfs target (.entries dir vfsDir) s (-1) (s₁.freePath libc none)
  | finished {dir : CString} {vfsDir : δ} {s s₁ : WalkState σ} :
      s.readDir vfs (some vfsDir) = (true, s₁) → s₁.dirent.type = .endMark →
      WalkRun libc vfs target (.entries dir vfsDir) s 0 (s₁.freePath libc none)
  | allocFail {dir : CString} {vfsDir : δ} {s s₁ s₂ : WalkState σ} :
      s.readDir vfs (some vfsDir) = (true, s₁) → s₁.dirent.type ≠ .endMark →
      s₁.entryPath libc dir = (none, s₂) →
      WalkRun libc vfs target (.entries dir vfsDir) s (-1) (s₂.freePath libc none)
  | entryFail {dir : CString} {vfsDir : δ} {s s₁ s₂ s₃ : WalkState σ} {path : HeapString}
      {err : Int} :
      s.readDir vfs (some vfsDir) = (true, s₁) → s₁.dirent.type ≠ .endMark →
      s₁.entryPath libc dir = (some path, s₂) →
      WalkRun libc vfs target (.entry path.str) s₂ err s₃ → err ≠ 0 →
      WalkRun libc vfs target (.entries dir vfsDir) s (-1) (s₃.freePath libc (some path))
  | next {dir : CString} {vfsDir : δ} {s s₁ s₂ s₃ s₄ : WalkState σ} {path : HeapString} {r : Int} :
      s.readDir vfs (some vfsDir) = (true, s₁) → s₁.dirent.type ≠ .endMark →
      s₁.entryPath libc dir = (some path, s₂) →
      WalkRun libc vfs target (.entry path.str) s₂ 0 s₃ →
      WalkRun libc vfs target (.entries dir vfsDir) (s₃.freePath libc (some path)) r s₄ →
      WalkRun libc vfs target (.entries dir vfsDir) s r s₄
  | file {path : CString} {s s₁ : WalkState σ} {r : Int} :
      s.dirent.type = .file → FileRun vfs target path s r s₁ →
      WalkRun libc vfs target (.entry path) s r s₁
  | subtree {path : CString} {s s₁ : WalkState σ} {r : Int} :
      s.dirent.type ≠ .file → cstr s.dirent.name ≠ dot → cstr s.dirent.name ≠ dotdot →
      WalkRun libc vfs target (.tree path) s r s₁ →
      WalkRun libc vfs target (.entry path) s r s₁
  | skipped {path : CString} {s : WalkState σ} :
      s.dirent.type ≠ .file → cstr s.dirent.name = dot ∨ cstr s.dirent.name = dotdot →
      WalkRun libc vfs target (.entry path) s 0 s

/-! ## What the functions compute is a run -/

section Sound

variable {libc : Libc σ} {vfs : Vfs σ φ δ} {target : Vfs σ φ' δ'}

theorem copyLoop_run {inn : Option φ} {out : Option φ'} {r : Int} {s' : WalkState σ} :
    ∀ {fuel : Nat} {s : WalkState σ}, copyLoop vfs target inn out fuel s = some (r, s') →
      CopyRun vfs target inn out s r s' := by
  intro fuel
  induction fuel with
  | zero => intro s h; simp [copyLoop] at h
  | succ fuel ih =>
    intro s h
    rw [copyLoop] at h
    cases hr : s.readBuffer vfs inn with
    | mk rb s₁ =>
      cases hw : s₁.writeBuffer target out rb with
      | mk wb s₂ =>
        simp only [hr, hw] at h
        split at h
        · rename_i hrb
          split at h
          · rename_i hne
            cases h
            exact .writeFail hr hrb hw hne
          · rename_i heq
            have hwb : wb = rb := not_not.mp heq
            subst hwb
            split at h
            · rename_i hshort
              cases h
              exact .last hr hrb hw hshort
            · rename_i hfull
              exact .more hr hrb hw (not_not.mp hfull) (ih h)
        · rename_i hrb
          cases h
          exact .readFail hr (by omega)

theorem processFile_run {path : CString} {fuel : Nat} {s s' : WalkState σ} {r : Int}
    (h : processFile vfs target fuel path s = some (r, s')) : FileRun vfs target path s r s' := by
  rw [processFile] at h
  cases ho : s.openFile target path (O_CREAT ||| O_TRUNC ||| O_WRONLY) with
  | mk out s₁ =>
    cases hi : s₁.openFile vfs path O_RDONLY with
    | mk inn s₂ =>
      simp only [ho, hi] at h
      cases out with
      | none =>
        simp only [Option.isNone_none, if_true] at h
        cases h
        exact .outFail ho
      | some out =>
        cases inn with
        | none =>
          simp only [Option.isNone_some, Option.isNone_none, if_true] at h
          cases h
          exact .inFail ho hi
        | some inn =>
          simp only [Option.isNone_some, Bool.false_eq_true, if_false] at h
          split at h
          · cases h
          · rename_i hc
            cases h
            exact .copied ho hi (copyLoop_run hc)

theorem processEntry_run {self : CString → WalkState σ → Option (Int × WalkState σ)} {fuel : Nat}
    (hself : ∀ dir s r s', self dir s = some (r, s') → WalkRun libc vfs target (.tree dir) s r s')
    {path : CString} {s s' : WalkState σ} {r : Int}
    (h : processEntry vfs target self fuel path s = some (r, s')) :
    WalkRun libc vfs target (.entry path) s r s' := by
  rw [processEntry] at h
  split at h
  · rename_i hfile
    exact .file hfile (processFile_run h)
  · rename_i hfile
    split at h
    · rename_i hname
      exact .subtree hfile hname.1 hname.2 (hself _ _ _ _ h)
    · rename_i hname
      cases h
      exact .skipped hfile (by tauto)

theorem entryLoop_run {self : CString → WalkState σ → Option (Int × WalkState σ)} {fuel : Nat}
    (hself : ∀ dir s r s', self dir s = some (r, s') → WalkRun libc vfs target (.tree dir) s r s')
    {dir : CString} {vfsDir : δ} {r : Int} {path : Option HeapString} {s' : WalkState σ} :
    ∀ {n : Nat} {s : WalkState σ},
      entryLoop libc vfs target self fuel dir (some vfsDir) n s = some (r, path, s') →
      WalkRun libc vfs target (.entries dir vfsDir) s r (s'.freePath libc path) := by
  intro n
  induction n with
  | zero => intro s h; simp [entryLoop] at h
  | succ n ih =>
    intro s h
    rw [entryLoop] at h
    cases hd : s.readDir vfs (some vfsDir) with
    | mk found s₁ =>
      simp only [hd] at h
      cases found with
      | false => cases h; exact .readdirFail hd
      | true =>
        simp only [Bool.not_true, Bool.false_eq_true, if_false] at h
        split at h
        · rename_i hend
          cases h
          exact .finished hd hend
        · rename_i hend
          split at h
          · rename_i ha
            cases h
            exact .allocFail hd hend ha
          · rename_i ha
            split at h
            · cases h
            · rename_i err s₃ he
              have hrun := processEntry_run hself he
              split at h
              · rename_i herr
                cases h
                exact .entryFail hd hend ha hrun herr
              · rename_i herr
                have herr' : err = 0 := not_not.mp herr
                subst herr'
                exact .next hd hend ha hrun (ih h)

/-- Whatever `traversal` computes is a run of the walk. -/
theorem traversal_run {r : Int} {s' : WalkState σ} :
    ∀ {fuel : Nat} {dir : CString} {s : WalkState σ},
      traversal libc vfs target fuel dir s = some (r, s') →
      WalkRun libc vfs target (.tree dir) s r s' := by
  intro fuel
  induction fuel generalizing r s' with
  | zero => intro dir s h; simp [traversal] at h
  | succ fuel ih =>
    intro dir s h
    rw [traversal] at h
    cases hm : s.makeDir target dir with
    | mk err s₁ =>
      simp only [hm] at h
      split at h
      · rename_i herr
        cases h
        exact .mkdirFail hm herr
      · rename_i herr
        have herr' : err = 0 := not_not.mp herr
        subst herr'
        cases ho : s₁.openDir vfs dir with
        | mk vfsDir s₂ =>
          simp only [ho] at h
          cases vfsDir with
          | none => cases h; exact .opendirFail hm ho
          | some vfsDir =>
            simp only [Option.isNone_some, Bool.false_eq_true, if_false] at h
            split at h
            · cases h
            · rename_i he
              cases h
              exact .opened hm ho (entryLoop_run (fun _ _ _ _ hs => ih hs) he)

end Sound

/-! ## The functions compute every run, given enough fuel -/

section Complete

variable {libc : Libc σ} {vfs : Vfs σ φ δ} {target : Vfs σ φ' δ'} {s s' : WalkState σ} {r : Int}

theorem CopyRun.computed {inn : Option φ} {out : Option φ'} (h : CopyRun vfs target inn out s r s') :
    ∃ n, ∀ m, n ≤ m → copyLoop vfs target inn out m s = some (r, s') := by
  induction h with
  | readFail hr hrb =>
    refine ⟨1, fun m hm => ?_⟩
    obtain ⟨m, rfl⟩ := Nat.exists_eq_add_of_le' hm
    simp only [copyLoop, hr]
    rw [if_neg (Int.not_le.mpr hrb)]
  | writeFail hr hrb hw hne =>
    refine ⟨1, fun m hm => ?_⟩
    obtain ⟨m, rfl⟩ := Nat.exists_eq_add_of_le' hm
    simp only [copyLoop, hr, hw]
    rw [if_pos hrb, if_pos hne]
  | last hr hrb hw hshort =>
    refine ⟨1, fun m hm => ?_⟩
    obtain ⟨m, rfl⟩ := Nat.exists_eq_add_of_le' hm
    simp only [copyLoop, hr, hw]
    rw [if_pos hrb, if_neg (not_not.mpr rfl), if_pos hshort]
  | more hr hrb hw hfull _ ih =>
    obtain ⟨n, hn⟩ := ih
    refine ⟨n + 1, fun m hm => ?_⟩
    obtain ⟨m, rfl⟩ := Nat.exists_eq_add_of_le' (Nat.le_trans (Nat.le_add_left 1 n) hm)
    simp only [copyLoop, hr, hw]
    rw [if_pos hrb, if_neg (not_not.mpr rfl), if_neg (not_not.mpr hfull)]
    exact hn m (Nat.le_of_succ_le_succ hm)

theorem FileRun.computed {path : CString} (h : FileRun vfs target path s r s') :
    ∃ n, ∀ m, n ≤ m → processFile vfs target m path s = some (r, s') := by
  cases h with
  | outFail ho =>
    refine ⟨0, fun m _ => ?_⟩
    simp only [processFile, ho]
    rfl
  | inFail ho hi =>
    refine ⟨0, fun m _ => ?_⟩
    simp only [processFile, ho, hi]
    rfl
  | copied ho hi hc =>
    obtain ⟨n, hn⟩ := hc.computed
    refine ⟨n, fun m hm => ?_⟩
    simp only [processFile, ho, hi, hn m hm]
    rfl

/-- With enough fuel the function of a task returns the result of the run. -/
def Task.Computed (libc : Libc σ) (vfs : Vfs σ φ δ) (target : Vfs σ φ' δ') (s : WalkState σ) (r : Int)
    (s' : WalkState σ) : Task δ → Prop
  | .tree dir => ∃ n, ∀ m, n ≤ m → traversal libc vfs target m dir s = some (r, s')
  | .entries dir vfsDir => ∃ n, ∀ fuel m, n ≤ fuel → n ≤ m → ∃ path s₁,
      entryLoop libc vfs target (traversal libc vfs target fuel) fuel dir (some vfsDir) m s =
        some (r, path, s₁) ∧ s₁.freePath libc path = s'
  | .entry path => ∃ n, ∀ fuel, n ≤ fuel →
      processEntry vfs target (traversal libc vfs target fuel) fuel path s = some (r, s')

/-- By induction on the run, the largest amount of fuel asked for below. -/
theorem WalkRun.computed {task : Task δ} (h : WalkRun libc vfs target task s r s') :
    task.Computed libc vfs target s r s' := by
  induction h with
  | mkdirFail hm herr =>
    refine ⟨1, fun m hm' => ?_⟩
    obtain ⟨m, rfl⟩ := Nat.exists_eq_add_of_le' hm'
    simp only [traversal, hm]
    rw [if_pos herr]
    rfl
  | opendirFail hm ho =>
    refine ⟨1, fun m hm' => ?_⟩
    obtain ⟨m, rfl⟩ := Nat.exists_eq_add_of_le' hm'
    simp only [traversal, hm, ho]
    rfl
  | opened hm ho _ ih =>
    obtain ⟨n, hn⟩ := ih
    refine ⟨n + 1, fun m hm' => ?_⟩
    obtain ⟨m, rfl⟩ := Nat.exists_eq_add_of_le' (Nat.le_trans (Nat.le_add_left 1 n) hm')
    obtain ⟨path, s₁, hloop, rfl⟩ := hn m m (Nat.le_of_succ_le_succ hm') (Nat.le_of_succ_le_succ hm')
    simp only [traversal, hm, ho, hloop]
    rfl
  | readdirFail hd =>
    refine ⟨1, fun fuel m _ hm => ⟨none, _, ?_, rfl⟩⟩
    obtain ⟨m, rfl⟩ := Nat.exists_eq_add_of_le' hm
    simp only [entryLoop, hd]
    rfl
  | finished hd hend =>
    refine ⟨1, fun fuel m _ hm => ⟨none, _, ?_, rfl⟩⟩
    obtain ⟨m, rfl⟩ := Nat.exists_eq_add_of_le' hm
    simp only [entryLoop, hd]
    rw [if_neg (by decide), if_pos hend]
  | allocFail hd hend ha =>
    refine ⟨1, fun fuel m _ hm => ⟨none, _, ?_, rfl⟩⟩
    obtain ⟨m, rfl⟩ := Nat.exists_eq_add_of_le' hm
    simp only [entryLoop, hd, ha]
    rw [if_neg (by decide), if_neg hend]
  | @entryFail dir vfsDir s s₁ s₂ s₃ path err hd hend ha _ herr ih =>
    obtain ⟨n, hn⟩ := ih
    refine ⟨n + 1, fun fuel m hfuel hm => ⟨some path, _, ?_, rfl⟩⟩
    obtain ⟨m, rfl⟩ := Nat.exists_eq_add_of_le' (Nat.le_trans (Nat.le_add_left 1 n) hm)
    simp only [entryLoop, hd, ha, hn fuel (Nat.le_of_succ_le hfuel)]
    rw [if_neg (by decide), if_neg hend, if_pos herr]
  | next hd hend ha _ _ ihe ihr =>
    obtain ⟨n, hn⟩ := ihe
    obtain ⟨n', hn'⟩ := ihr
    refine ⟨max n n' + 1, fun fuel m hfuel hm => ?_⟩
    obtain ⟨m, rfl⟩ := Nat.exists_eq_add_of_le' (Nat.le_trans (Nat.le_add_left 1 _) hm)
    obtain ⟨path, s₁, hloop, hfree⟩ := hn' fuel m (by omega) (by omega)
    refine ⟨path, s₁, ?_, hfree⟩
    simp only [entryLoop, hd, ha, hn fuel (by omega)]
    rw [if_neg (by decide), if_neg hend, if_neg (not_not.mpr rfl)]
    exact hloop
  | file hfile hf =>
    obtain ⟨n, hn⟩ := hf.computed
    refine ⟨n, fun fuel hfuel => ?_⟩
    rw [processEntry, if_pos hfile]
    exact hn fuel hfuel
  | subtree hfile hdot hdotdot _ ih =>
    obtain ⟨n, hn⟩ := ih
    refine ⟨n, fun fuel hfuel => ?_⟩
    rw [processEntry, if_neg hfile, if_pos ⟨hdot, hdotdot⟩]
    exact hn fuel hfuel
  | skipped hfile hdots =>
    refine ⟨0, fun fuel _ => ?_⟩
    rw [processEntry, if_neg hfile, if_neg fun h => hdots.elim h.1 h.2]

/-- `traversal` returns if and only if it has a run. -/
theorem traversal_iff_run {dir : CString} :
    (∃ fuel, traversal libc vfs target fuel dir s = some (r, s')) ↔
      WalkRun libc vfs target (.tree dir) s r s' := by
  constructor
  · rintro ⟨fuel, h⟩
    exact traversal_run h
  · intro h
    obtain ⟨n, hn⟩ := h.computed
    exact ⟨n, hn n (Nat.le_refl n)⟩

end Complete

/-! ## Results -/

section Result

variable {libc : Libc σ} {vfs : Vfs σ φ δ} {target : Vfs σ φ' δ'}

theorem CopyRun.result {inn : Option φ} {out : Option φ'} {s s' : WalkState σ} {r : Int}
    (h : CopyRun vfs target inn out s r s') : r = 0 ∨ r = -1 := by
  induction h with
  | readFail _ _ => exact .inr rfl
  | writeFail _ _ _ _ => exact .inr rfl
  | last _ _ _ _ => exact .inl rfl
  | more _ _ _ _ _ ih => exact ih

theorem FileRun.result {path : CString} {s s' : WalkState σ} {r : Int}
    (h : FileRun vfs target path s r s') : r = 0 ∨ r = -1 := by
  cases h with
  | outFail _ => exact .inr rfl
  | inFail _ _ => exact .inr rfl
  | copied _ _ hc => exact hc.result

theorem WalkRun.result {task : Task δ} {s s' : WalkState σ} {r : Int}
    (h : WalkRun libc vfs target task s r s') : r = 0 ∨ r = -1 := by
  induction h with
  | finished _ _ => exact .inl rfl
  | skipped _ _ => exact .inl rfl
  | opened _ _ _ ih => exact ih
  | next _ _ _ _ _ _ ih => exact ih
  | file _ hf => exact hf.result
  | subtree _ _ _ _ ih => exact ih
  | _ => exact .inr rfl

end Result

/-! ## What a run leaves alone -/

section Keeps

variable {libc : Libc σ} {vfs : Vfs σ φ δ} {target : Vfs σ φ' δ'} {α : Type} {f : σ → α}
  {s s' : WalkState σ} {r : Int}

theorem CopyRun.keeps (hv : VfsKeeps vfs f) (ht : VfsKeeps target f) {inn : Option φ} {out : Option φ'}
    (h : CopyRun vfs target inn out s r s') : f s'.sys = f s.sys := by
  induction h with
  | readFail hr _ => exact readBuffer_keeps (hv.read _ _ _ _) hr
  | writeFail hr _ hw _ =>
    exact (writeBuffer_keeps (ht.write _ _ _ _) hw).trans (readBuffer_keeps (hv.read _ _ _ _) hr)
  | last hr _ hw _ =>
    exact (writeBuffer_keeps (ht.write _ _ _ _) hw).trans (readBuffer_keeps (hv.read _ _ _ _) hr)
  | more hr _ hw _ _ ih =>
    exact ih.trans ((writeBuffer_keeps (ht.write _ _ _ _) hw).trans
      (readBuffer_keeps (hv.read _ _ _ _) hr))

theorem FileRun.keeps (hv : VfsKeeps vfs f) (ht : VfsKeeps target f) {path : CString}
    (h : FileRun vfs target path s r s') : f s'.sys = f s.sys := by
  cases h with
  | outFail ho => exact openFile_keeps (ht.open_ _ _) ho
  | inFail ho hi =>
    exact (ht.close _ _).trans ((openFile_keeps (hv.open_ _ _) hi).trans
      (openFile_keeps (ht.open_ _ _) ho))
  | copied ho hi hc =>
    exact (ht.close _ _).trans ((hv.close _ _).trans ((hc.keeps hv ht).trans
      ((openFile_keeps (hv.open_ _ _) hi).trans (openFile_keeps (ht.open_ _ _) ho))))

theorem WalkRun.keeps (hl : LibcKeeps libc f) (hv : VfsKeeps vfs f) (ht : VfsKeeps target f)
    {task : Task δ} (h : WalkRun libc vfs target task s r s') : f s'.sys = f s.sys := by
  induction h with
  | mkdirFail hm _ => exact (hl.free _ _).trans (makeDir_keeps (ht.mkdir _) hm)
  | opendirFail hm ho =>
    exact (hl.free _ _).trans ((openDir_keeps (hv.opendir _) ho).trans (makeDir_keeps (ht.mkdir _) hm))
  | opened hm ho _ ih =>
    exact (hv.closedir _ _).trans (ih.trans
      ((openDir_keeps (hv.opendir _) ho).trans (makeDir_keeps (ht.mkdir _) hm)))
  | readdirFail hd => exact (hl.free _ _).trans (readDir_keeps (hv.readdir _ _ _) hd)
  | finished hd _ => exact (hl.free _ _).trans (readDir_keeps (hv.readdir _ _ _) hd)
  | allocFail hd _ ha =>
    exact (hl.free _ _).trans ((entryPath_keeps hl ha).trans (readDir_keeps (hv.readdir _ _ _) hd))
  | entryFail hd _ ha _ _ ih =>
    exact (hl.free _ _).trans (ih.trans
      ((entryPath_keeps hl ha).trans (readDir_keeps (hv.readdir _ _ _) hd)))
  | next hd _ ha _ _ ihe ihr =>
    exact ihr.trans ((hl.free _ _).trans (ihe.trans
      ((entryPath_keeps hl ha).trans (readDir_keeps (hv.readdir _ _ _) hd))))
  | file _ hf => exact hf.keeps hv ht
  | subtree _ _ _ _ ih => exact ih
  | skipped _ _ => rfl

end Keeps

end WalkRun

end LfsTool
