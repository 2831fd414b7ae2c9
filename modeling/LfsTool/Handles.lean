import Mathlib.Algebra.Order.Ring.Int
import LfsTool.Calls
import LfsTool.RoundTrip

/-!
# LfsTool.Handles

The handles of a walk. `notedTraversal` is `traversal` with a record of its calls, of each entry into
`traversal` and of each return from it, so the depth of the recursion is known at every moment. The
handles open at a moment are a stack.

* `Opened.Step`: a call takes a handle, uses one that is open, or gives back the one opened last. There
  are never more directories open than calls of `traversal` under way, nor more than two files.
* `entryLoop_handles`, `traversalBody_handles`: if the recursive calls keep to these steps and end with
  the handles they started with, so does the body of `traversal`.
* `handles_balanced`: so a whole traversal is, from no handle to none.
-/

namespace LfsTool

open PathSyntax Replay WalkState

/-- A handle, with the back end and the function it came from. -/
inductive Handle (φ δ φ' δ' : Type) where
  | sourceFile (fd : φ)
  | sourceDir (dir : δ)
  | targetFile (fd : φ')
  | targetDir (dir : δ')

section Effects

variable {φ δ φ' δ' η : Type}

/-- A function that is given a handle does `f` with it; it must not be given NULL. -/
def Effect.given {α : Type} (f : α → Effect η) : Option α → Effect η
  | some h => f h
  | none => .invalid

/-- What a call does with handles, where `file` and `dir` say what it calls them. -/
def VfsCall.effect (file : φ → η) (dir : δ → η) : VfsCall φ δ → Effect η
  | .open_ _ _ (some fd) => .acquire (file fd)
  | .open_ _ _ none => .idle
  | .close fd _ => Effect.given (fun h => .release (file h)) fd
  | .read fd _ _ => Effect.given (fun h => .use (file h)) fd
  | .write fd _ _ _ => Effect.given (fun h => .use (file h)) fd
  | .opendir _ (some d) => .acquire (dir d)
  | .opendir _ none => .idle
  | .closedir d _ => Effect.given (fun h => .release (dir h)) d
  | .readdir d _ => Effect.given (fun h => .use (dir h)) d
  | .mkdir _ _ => .idle

def Call.effect : Call φ δ φ' δ' → Effect (Handle φ δ φ' δ')
  | .source c => c.effect .sourceFile .sourceDir
  | .target c => c.effect .targetFile .targetDir

inductive Moment (φ δ φ' δ' : Type) where
  | enter (dir : CString)
  | call (c : Call φ δ φ' δ')
  | leave (r : Int)

def Moment.effect : Moment φ δ φ' δ' → Effect (Handle φ δ φ' δ')
  | .call c => c.effect
  | _ => .idle

/-- How many more calls of `traversal` are under way behind a moment than before it. -/
def Moment.depth : Moment φ δ φ' δ' → Int
  | .enter _ => 1
  | .call _ => 0
  | .leave _ => -1

def Handle.isDir : Handle φ δ φ' δ' → Bool
  | .sourceDir _ | .targetDir _ => true
  | .sourceFile _ | .targetFile _ => false

end Effects

/-! ## The record -/

section Noted

variable {ε σ φ δ φ' δ' : Type}

def WalkState.note (s : WalkState (Logged ε σ)) (e : ε) : WalkState (Logged ε σ) :=
  { s with sys := ⟨s.sys.sys, s.sys.log ++ [e]⟩ }

/-- `traversal`, with a record of its entries and its returns. -/
def notedTraversal (libc : Libc (Logged (Moment φ δ φ' δ') σ))
    (vfs : Vfs (Logged (Moment φ δ φ' δ') σ) φ δ) (target : Vfs (Logged (Moment φ δ φ' δ') σ) φ' δ') :
    Nat → CString → WalkState (Logged (Moment φ δ φ' δ') σ) →
      Option (Int × WalkState (Logged (Moment φ δ φ' δ') σ))
  | 0, _, _ => none
  | fuel + 1, dir, s =>
    (traversalBody libc vfs target (notedTraversal libc vfs target fuel) fuel dir
      (s.note (.enter dir))).map fun (r, s) => (r, s.note (.leave r))

def sourceCall (c : VfsCall φ δ) : Moment φ δ φ' δ' := .call (.source c)

def targetCall (c : VfsCall φ' δ') : Moment φ δ φ' δ' := .call (.target c)

/-- The moments of `traversal`, those of nested calls included. -/
def traversalMoments (libc : Libc σ) (vfs : Vfs σ φ δ) (target : Vfs σ φ' δ') (fuel : Nat)
    (dir : CString) (s : WalkState σ) : Option (List (Moment φ δ φ' δ')) :=
  (notedTraversal libc.lift (vfs.traced sourceCall) (target.traced targetCall) fuel dir
    s.unrecorded).map (·.2.sys.log)

theorem notedTraversal_map (libc : Libc σ) (vfs : Vfs σ φ δ) (target : Vfs σ φ' δ') (fuel : Nat)
    (dir : CString) (s : WalkState (Logged (Moment φ δ φ' δ') σ)) :
    traversal libc vfs target fuel dir (s.map Logged.sys) =
      (notedTraversal libc.lift (vfs.traced sourceCall) (target.traced targetCall) fuel dir s).map
        (Prod.map id (WalkState.map Logged.sys)) := by
  induction fuel generalizing dir s with
  | zero => rfl
  | succ fuel ih =>
    have hbody := traversalBody_map (libc.lift_hom (ε := Moment φ δ φ' δ')) (vfs.traced_hom sourceCall)
      (target.traced_hom targetCall) ih fuel dir (s.note (.enter dir))
    have hnote : (s.note (.enter dir)).map Logged.sys = s.map Logged.sys := rfl
    rw [traversal_succ, ← hnote, hbody, notedTraversal, Option.map_map]
    rfl

/-- A traversal that returns has moments. -/
theorem traversalMoments_noted {libc : Libc σ} {vfs : Vfs σ φ δ} {target : Vfs σ φ' δ'} {fuel : Nat}
    {dir : CString} {s s' : WalkState σ} {r : Int}
    (h : traversal libc vfs target fuel dir s = some (r, s')) :
    ∃ s₁, traversalMoments libc vfs target fuel dir s = some s₁.sys.log ∧
      notedTraversal libc.lift (vfs.traced sourceCall) (target.traced targetCall) fuel dir
        s.unrecorded = some (r, s₁) := by
  have hmap := notedTraversal_map libc vfs target fuel dir s.unrecorded
  obtain ⟨⟨r', s₁⟩, hnoted, hr⟩ := Option.map_eq_some_iff.mp (hmap.symm.trans h)
  obtain ⟨rfl, _⟩ := Prod.mk.inj hr
  exact ⟨s₁, by rw [traversalMoments, hnoted]; rfl, hnoted⟩

end Noted

/-! ## Steps -/

/-- The handles open, the one opened last in front, and the depth of the recursion. -/
structure Opened (φ δ φ' δ' : Type) where
  handles : List (Handle φ δ φ' δ')
  depth : Int

namespace Opened

variable {φ δ φ' δ' : Type}

def dirs (o : Opened φ δ φ' δ') : Nat := o.handles.countP (·.isDir)

def files (o : Opened φ δ φ' δ') : Nat := o.handles.countP (!·.isDir)

/-- At most as many directories are open as calls of `traversal` are under way, and two files. -/
structure Bounded (o : Opened φ δ φ' δ') : Prop where
  dirs : (o.dirs : Int) ≤ o.depth
  files : o.files ≤ 2

structure Step (o : Opened φ δ φ' δ') (c : Moment φ δ φ' δ') (o' : Opened φ δ φ' δ') : Prop where
  held : Held Moment.effect o.handles c o'.handles
  depth : o'.depth = o.depth + c.depth
  bounded : o'.Bounded

def start : Opened φ δ φ' δ' := ⟨[], 0⟩

def push (h : Handle φ δ φ' δ') (o : Opened φ δ φ' δ') : Opened φ δ φ' δ' :=
  { o with handles := h :: o.handles }

def enter (o : Opened φ δ φ' δ') : Opened φ δ φ' δ' := { o with depth := o.depth + 1 }

variable {o : Opened φ δ φ' δ'} {h : Handle φ δ φ' δ'} {c : Moment φ δ φ' δ'}

theorem push_dirs : (o.push h).dirs = o.dirs + if h.isDir then 1 else 0 := by
  simp [push, Opened.dirs, List.countP_cons]

theorem push_files : (o.push h).files = o.files + if h.isDir then 0 else 1 := by
  cases hh : h.isDir <;> simp [push, Opened.files, hh]

theorem Bounded.enter (ho : o.Bounded) : o.enter.Bounded :=
  ⟨Int.le_trans ho.dirs (Int.le_add_of_nonneg_right (by decide)), ho.files⟩

theorem Bounded.push_dir (ho : o.Bounded) (hh : h.isDir = true) : (o.enter.push h).Bounded where
  dirs := by
    rw [push_dirs, if_pos hh]
    exact Int.add_le_add_right ho.dirs 1
  files := by
    rw [push_files, if_pos hh]
    exact ho.files

theorem Bounded.push_file (ho : o.Bounded) (hh : h.isDir = false) (hfiles : o.files < 2) :
    (o.push h).Bounded where
  dirs := by
    rw [push_dirs, hh]
    exact ho.dirs
  files := by
    rw [push_files, hh]
    exact hfiles

theorem Step.idle (ho : o.Bounded) (hc : c.effect = .idle) (hd : c.depth = 0) : o.Step c o :=
  ⟨.idle hc, by rw [hd, Int.add_zero], ho⟩

theorem Step.use (ho : o.Bounded) (hc : c.effect = .use h) (hh : h ∈ o.handles) (hd : c.depth = 0) :
    o.Step c o :=
  ⟨.use hc hh, by rw [hd, Int.add_zero], ho⟩

theorem Step.acquire (ho : (o.push h).Bounded) (hc : c.effect = .acquire h) (hd : c.depth = 0) :
    o.Step c (o.push h) :=
  ⟨.acquire hc, by rw [hd, Int.add_zero]; rfl, ho⟩

theorem Step.release (ho : o.Bounded) (hc : c.effect = .release h) (hd : c.depth = 0) :
    (o.push h).Step c o :=
  ⟨.release hc, by rw [hd, Int.add_zero]; rfl, ho⟩

theorem Step.enter (ho : o.Bounded) (dir : CString) : o.Step (.enter dir) o.enter :=
  ⟨.idle rfl, rfl, ho.enter⟩

theorem Step.leave (ho : o.Bounded) (r : Int) : o.enter.Step (.leave r) o :=
  ⟨.idle rfl, (Int.add_neg_cancel_right o.depth 1).symm, ho⟩

end Opened

/-- The handles of a walk are balanced: from none to none, through nested openings and closings only,
never too many at once. -/
def Balanced {φ δ φ' δ' : Type} (moments : List (Moment φ δ φ' δ')) : Prop :=
  Run Opened.Step .start moments .start

section Walk

variable {σ φ δ φ' δ' : Type} {libc : Libc σ} {vfs : Vfs σ φ δ} {target : Vfs σ φ' δ'}
  {s s₁ : WalkState (Logged (Moment φ δ φ' δ') σ)} {r : Int} {o : Opened φ δ φ' δ'}

theorem CopyRun.handles {inn : φ} {out : φ'} (hinn : .sourceFile inn ∈ o.handles)
    (hout : .targetFile out ∈ o.handles) (ho : o.Bounded)
    (h : CopyRun (vfs.traced sourceCall) (target.traced targetCall) (some inn) (some out) s r s₁) :
    TracedRun Opened.Step o o s s₁ := by
  have hread : ∀ rb, o.Step (sourceCall (.read (some inn) bufferSize rb)) o :=
    fun _ => .use ho rfl hinn rfl
  have hwrite : ∀ data n wb, o.Step (targetCall (.write (some out) data n wb)) o :=
    fun _ _ _ => .use ho rfl hout rfl
  induction h with
  | readFail hr _ => exact .call (readBuffer_traced hr) (hread _)
  | writeFail hr _ hw _ =>
    exact (TracedRun.call (readBuffer_traced hr) (hread _)).trans
      (.call (writeBuffer_traced hw) (hwrite _ _ _))
  | last hr _ hw _ =>
    exact (TracedRun.call (readBuffer_traced hr) (hread _)).trans
      (.call (writeBuffer_traced hw) (hwrite _ _ _))
  | more hr _ hw _ _ ih =>
    exact (TracedRun.call (readBuffer_traced hr) (hread _)).trans
      ((TracedRun.call (writeBuffer_traced hw) (hwrite _ _ _)).trans ih)

theorem FileRun.handles {path : CString} (ho : o.Bounded) (hfiles : o.files = 0)
    (h : FileRun (vfs.traced sourceCall) (target.traced targetCall) path s r s₁) :
    TracedRun Opened.Step o o s s₁ := by
  cases h with
  | outFail hout => exact .call (openFile_traced hout) (.idle ho rfl rfl)
  | @inFail s₂ s₃ out hout hinn =>
    have hbound := ho.push_file (h := .targetFile out) rfl (by omega)
    obtain ⟨err, hclose⟩ := closeFile_traced target targetCall (some out) s₃
    exact (TracedRun.call (openFile_traced hout) (.acquire hbound rfl rfl)).trans
      ((TracedRun.call (openFile_traced hinn) (.idle hbound rfl rfl)).trans
        (.call hclose (.release ho rfl rfl)))
  | @copied s₂ s₃ s₄ out inn _ hout hinn hcopy =>
    have hbound := ho.push_file (h := .targetFile out) rfl (by omega)
    have hbound' := hbound.push_file (h := .sourceFile inn) rfl
      (by rw [Opened.push_files, hfiles]; show 0 + 1 < 2; decide)
    obtain ⟨err, hclose⟩ := closeFile_traced vfs sourceCall (some inn) s₄
    obtain ⟨err', hclose'⟩ := closeFile_traced target targetCall (some out)
      (s₄.closeFile (vfs.traced sourceCall) (some inn)).2
    have hloop := hcopy.handles (o := (o.push (.targetFile out)).push (.sourceFile inn))
      (by simp [Opened.push]) (by simp [Opened.push]) hbound'
    exact (TracedRun.call (openFile_traced hout) (.acquire hbound rfl rfl)).trans
      ((TracedRun.call (openFile_traced hinn) (.acquire hbound' rfl rfl)).trans
        (hloop.trans ((TracedRun.call hclose (.release hbound rfl rfl)).trans
          (.call hclose' (.release ho rfl rfl)))))

/-- What a recursive call does with handles: in the end the same ones are open as before. -/
def HandlesKept (self : CString → WalkState (Logged (Moment φ δ φ' δ') σ) →
    Option (Int × WalkState (Logged (Moment φ δ φ' δ') σ))) : Prop :=
  ∀ (o : Opened φ δ φ' δ') dir s r s₁, o.Bounded → o.files = 0 → self dir s = some (r, s₁) →
    TracedRun Opened.Step o o s s₁

variable {self : CString → WalkState (Logged (Moment φ δ φ' δ') σ) →
    Option (Int × WalkState (Logged (Moment φ δ φ' δ') σ))}

theorem processEntry_handles (hself : HandlesKept self) (ho : o.Bounded) (hfiles : o.files = 0)
    {fuel : Nat} {path : CString}
    (h : processEntry (vfs.traced sourceCall) (target.traced targetCall) self fuel path s =
      some (r, s₁)) : TracedRun Opened.Step o o s s₁ := by
  rw [processEntry] at h
  split at h
  · exact (processFile_run h).handles ho hfiles
  · split at h
    · exact hself o path s r s₁ ho hfiles h
    · cases h
      exact .silent rfl

/-- By induction on the turns. The directory is open all the time. -/
theorem entryLoop_handles (hself : HandlesKept self) (ho : o.Bounded) (hfiles : o.files = 0)
    {fuel n : Nat} {dir : CString} {vfsDir : δ} (hdir : .sourceDir vfsDir ∈ o.handles)
    {path : Option HeapString}
    (h : entryLoop libc.lift (vfs.traced sourceCall) (target.traced targetCall) self fuel dir
      (some vfsDir) n s = some (r, path, s₁)) : TracedRun Opened.Step o o s s₁ := by
  induction n generalizing s with
  | zero => cases h
  | succ n ih =>
    rw [entryLoop] at h
    cases hd : s.readDir (vfs.traced sourceCall) (some vfsDir) with
    | mk found s₂ =>
      have hread : TracedRun Opened.Step o o s s₂ :=
        .call (readDir_traced hd) (.use ho rfl hdir rfl)
      simp only [hd] at h
      split at h
      · cases h
        exact hread
      · split at h
        · cases h
          exact hread
        · split at h
          · rename_i ha
            cases h
            exact hread.same (entryPath_keeps libc.lift_keeps ha)
          · rename_i path₁ s₃ ha
            split at h
            · cases h
            · rename_i err s₄ he
              have hfree : (s₄.freePath libc.lift (some path₁)).sys.log = s₄.sys.log := rfl
              have hentry := (hread.same (entryPath_keeps libc.lift_keeps ha)).trans
                (processEntry_handles hself ho hfiles he)
              split at h
              · cases h
                exact hentry
              · exact (hentry.same hfree).trans (ih h)

theorem traversalBody_handles (hself : HandlesKept self) (ho : o.Bounded) (hfiles : o.files = 0)
    {fuel : Nat} {dir : CString}
    (h : traversalBody libc.lift (vfs.traced sourceCall) (target.traced targetCall) self fuel dir s =
      some (r, s₁)) : TracedRun Opened.Step o.enter o.enter s s₁ := by
  have hfree : ∀ path (s : WalkState (Logged (Moment φ δ φ' δ') σ)),
      (s.freePath libc.lift path).sys.log = s.sys.log := fun _ _ => rfl
  rw [traversalBody] at h
  cases hm : s.makeDir (target.traced targetCall) dir with
  | mk err s₂ =>
    have hmkdir : TracedRun Opened.Step o.enter o.enter s s₂ :=
      .call (makeDir_traced hm) (.idle ho.enter rfl rfl)
    cases hd : s₂.openDir (vfs.traced sourceCall) dir with
    | mk vfsDir s₃ =>
      simp only [hm, hd] at h
      split at h
      · cases h
        exact hmkdir.same (hfree _ _)
      · cases vfsDir with
        | none =>
          cases h
          exact hmkdir.trans ((TracedRun.call (openDir_traced hd) (.idle ho.enter rfl rfl)).same
            (hfree _ _))
        | some vfsDir =>
          have hbound := ho.push_dir (h := .sourceDir vfsDir) rfl
          have hopendir : TracedRun Opened.Step o.enter (o.enter.push (.sourceDir vfsDir)) s₂ s₃ :=
            .call (openDir_traced hd) (.acquire hbound rfl rfl)
          simp only [Option.isNone_some, Bool.false_eq_true, if_false] at h
          split at h
          · cases h
          · rename_i result path s₄ hl
            cases h
            have hloop := entryLoop_handles hself hbound (by rw [Opened.push_files]; exact hfiles)
              (List.mem_cons_self ..) hl
            obtain ⟨err, hclose⟩ := closeDir_traced vfs sourceCall (some vfsDir)
              (s₄.freePath libc.lift path)
            exact hmkdir.trans (hopendir.trans ((hloop.same (hfree path s₄)).trans
              (.call hclose (.release ho.enter rfl rfl))))

theorem notedTraversal_handles (fuel : Nat) :
    HandlesKept (notedTraversal libc.lift (vfs.traced sourceCall) (target.traced targetCall) fuel) := by
  induction fuel with
  | zero =>
    intro o dir s r s₁ _ _ h
    cases h
  | succ fuel ih =>
    intro o dir s r s₁ ho hfiles h
    obtain ⟨⟨_, s₂⟩, hbody, heq⟩ := Option.map_eq_some_iff.mp h
    cases heq
    exact (TracedRun.call rfl (.enter ho dir)).trans
      ((traversalBody_handles ih ho hfiles hbody).trans (.call rfl (.leave ho r)))

end Walk

section Balanced

variable {φ δ φ' δ' : Type} {moments : List (Moment φ δ φ' δ')}

theorem Balanced.perm (h : Balanced moments) :
    (moments.filterMap (·.effect.acquired)).Perm (moments.filterMap (·.effect.released)) := by
  have hheld : Run (Held Moment.effect) [] moments [] := h.map (f := Opened.handles) fun hstep => hstep.held
  simpa using hheld.acquired_perm

theorem Opened.depth_run {o o' : Opened φ δ φ' δ'} (h : Run Step o moments o') :
    o'.depth = o.depth + (moments.map Moment.depth).sum := by
  induction h with
  | nil => exact (Int.add_zero _).symm
  | cons hstep _ ih => rw [ih, hstep.depth, List.map_cons, List.sum_cons, Int.add_assoc]

theorem Opened.bounded_run {o o' : Opened φ δ φ' δ'} (h : Run Step o moments o') (ho : o.Bounded) :
    o'.Bounded := by
  induction h with
  | nil => exact ho
  | cons hstep _ ih => exact ih hstep.bounded

theorem Opened.bounded_start : (start : Opened φ δ φ' δ').Bounded := ⟨Int.le_refl 0, Nat.zero_le 2⟩

theorem Balanced.moment {before after : List (Moment φ δ φ' δ')} (h : Balanced (before ++ after)) :
    ∃ o : Opened φ δ φ' δ', Run Opened.Step .start before o ∧
      (o.dirs : Int) ≤ (before.map Moment.depth).sum ∧ o.files ≤ 2 := by
  obtain ⟨o, hbefore, _⟩ := h.split
  have hbound := Opened.bounded_run hbefore Opened.bounded_start
  have hdepth := Opened.depth_run hbefore
  rw [Opened.start, Int.zero_add] at hdepth
  exact ⟨o, hbefore, hdepth ▸ hbound.dirs, hbound.files⟩

end Balanced

theorem handles_balanced {σ φ δ φ' δ' : Type} (libc : Libc σ) (vfs : Vfs σ φ δ)
    (target : Vfs σ φ' δ') {fuel : Nat} {dir : CString} {s s' : WalkState σ} {r : Int}
    (h : traversal libc vfs target fuel dir s = some (r, s')) :
    ∃ moments, traversalMoments libc vfs target fuel dir s = some moments ∧ Balanced moments ∧
      (moments.filterMap (·.effect.acquired)).Perm (moments.filterMap (·.effect.released)) ∧
      ∀ before after, moments = before ++ after → ∃ o : Opened φ δ φ' δ',
        Run Opened.Step .start before o ∧ (o.dirs : Int) ≤ (before.map Moment.depth).sum ∧
          o.files ≤ 2 := by
  obtain ⟨s₁, hmoments, hnoted⟩ := traversalMoments_noted h
  obtain ⟨moments, hlog, hrun⟩ := notedTraversal_handles fuel .start dir s.unrecorded r s₁
    Opened.bounded_start rfl hnoted
  have hlog' : s₁.sys.log = moments := hlog
  have hbalanced : Balanced moments := hrun
  refine ⟨moments, by rw [hmoments, hlog'], hbalanced, hbalanced.perm, ?_⟩
  rintro before after rfl
  exact hbalanced.moment

theorem handles_balanced_sample :
    ∃ moments, traversalMoments (treeLibc calmEnv) (treeImage calmEnv) (treeNative calmEnv) 8 [slash]
        (.start sampleImage) = some moments ∧ Balanced moments ∧
      (moments.filterMap (·.effect.acquired)).Perm (moments.filterMap (·.effect.released)) ∧
      ∀ before after, moments = before ++ after → ∃ o : Opened Ptr Ptr NativeFile NativeDir,
        Run Opened.Step .start before o ∧ (o.dirs : Int) ≤ (before.map Moment.depth).sum ∧
          o.files ≤ 2 := by
  obtain ⟨s', h⟩ := exists_state
    (o := calmEnv.traversal .extract 8 [slash] (.start sampleImage)) (r := 0) (by decide +kernel)
  exact handles_balanced (treeLibc calmEnv) (treeImage calmEnv) (treeNative calmEnv) h

end LfsTool
