import LfsTool.Containment
import LfsTool.Failures
import LfsTool.Main

/-!
# LfsTool.ExitStatus

What the exit status says. `main` looks neither at the result of `traversal` nor at that of the
unmount: once the image is mounted the status is success.

* `setup_fails`: a run that does not get to the walk reports it.
* `main_mounted`: every other run reports success.
* `exit_reports_iff`: so the status is right exactly when nothing went wrong.
-/

namespace LfsTool

open PathSyntax TreeFs WalkState

section ExitStatus

variable {σ : Type} {sys : Sys σ} {fuel : Nat} {args : List CString} {w w' : σ} {f : Finished}

def transferCalls (sys : Sys σ) (fuel : Nat) (request : Request) (lfs : Option Ptr) (w : σ) :
    Option (List Event) :=
  let vfsLfs := vfsLfs sys.libc sys.lf lfs
  let vfsNative := vfsNative sys.libc sys.px request.directory
  if request.create then traversalCalls sys.libc vfsNative vfsLfs fuel [slash] (.start w)
  else traversalCalls sys.libc vfsLfs vfsNative fuel [slash] (.start w)

theorem transferCalls_reports {request : Request} {lfs : Option Ptr} {r : Int} {s : WalkState σ}
    (h : transfer sys fuel request lfs w = some (r, s)) :
    ∃ evs, transferCalls sys fuel request lfs w = some evs ∧ (r = 0 ↔ Clean evs) := by
  simp only [transfer] at h
  simp only [transferCalls]
  split at h
  · rename_i hcreate
    rw [if_pos hcreate]
    exact traversalCalls_reports h
  · rename_i hcreate
    rw [if_neg hcreate]
    exact traversalCalls_reports h

/-- No call of the walk fails, the closes included. -/
def NoneFails (evs : List Event) : Prop := ∀ e ∈ evs, e.ok = true

theorem NoneFails.clean {evs : List Event} (h : NoneFails evs) : Clean evs :=
  fun e he => Event.fatal_of_ok (h e he)

/-- Success means that the walk and the unmount returned 0, and any failure in the walk is reported. -/
structure ExitRight (sys : Sys σ) (fuel : Nat) (args : List CString) (w : σ) (f : Finished) :
    Prop where
  success : f.exit = .status EXIT_SUCCESS → f.traversal = some 0 ∧ f.unmount = some 0
  failure : ∀ request lfs w₁ evs, setup sys args w = .mounted request lfs w₁ →
    transferCalls sys fuel request lfs w₁ = some evs → ¬NoneFails evs → f.exit = .status EXIT_FAILURE

/-- If the run gets to the walk, all calls of the walk succeed, and `lfs_unmount` behind it does. -/
def NothingFails (sys : Sys σ) (fuel : Nat) (args : List CString) (w : σ) : Prop :=
  ∀ request lfs w₁, setup sys args w = .mounted request lfs w₁ →
    ∃ evs r s, transferCalls sys fuel request lfs w₁ = some evs ∧ NoneFails evs ∧
      transfer sys fuel request lfs w₁ = some (r, s) ∧ (sys.lf.unmount lfs s.sys).1 = 0

theorem lfsUnmount_result {libc : Libc σ} {lf : Lfs σ} {lfs : Option Ptr} :
    (lfsUnmount libc lf lfs w).1 = 0 ↔ (lf.unmount lfs w).1 = 0 := by
  simp only [lfsUnmount]
  split
  · rename_i h
    simp [h]
  · rename_i h
    simp [h]

theorem mainDone_exit (result : Nat) (vfsLfs : Option (Option Ptr)) (traversed : Option Int) :
    (mainDone sys result vfsLfs traversed w).1.exit =
      .status (if result ≠ EXIT_SUCCESS then EXIT_FAILURE else EXIT_SUCCESS) := by
  cases vfsLfs <;> rfl

theorem setup_fails (h : setup sys args w = .finished f w') : f.exit ≠ .status EXIT_SUCCESS := by
  simp only [setup] at h
  split at h
  · cases h
    decide
  · cases h
    rw [mainDone_exit]
    decide
  · split at h
    · split at h
      · cases h
        rw [mainDone_exit]
        decide
      · cases h
        decide
    · split at h
      · cases h
        rw [mainDone_exit]
        decide
      · cases h

theorem main_mounted {request : Request} {lfs : Option Ptr} {w₁ : σ}
    (hsetup : setup sys args w = .mounted request lfs w₁)
    (h : main sys fuel args w = some (f, w')) :
    ∃ r s, transfer sys fuel request lfs w₁ = some (r, s) ∧ f.exit = .status EXIT_SUCCESS ∧
      f.traversal = some r ∧ f.unmount = some (lfsUnmount sys.libc sys.lf lfs s.sys).1 := by
  simp only [main, hsetup] at h
  split at h
  · cases h
  · rename_i r s htr
    cases h
    exact ⟨r, s, htr, rfl, rfl, rfl⟩

theorem exit_reports_iff (sys : Sys σ) (fuel : Nat) (args : List CString) (w w' : σ) (f : Finished)
    (h : main sys fuel args w = some (f, w')) :
    ExitRight sys fuel args w f ↔ NothingFails sys fuel args w := by
  constructor
  · rintro ⟨hzero, hfail⟩ request lfs w₁ hsetup
    obtain ⟨r, s, htr, hexit, _, hunmount⟩ := main_mounted hsetup h
    obtain ⟨evs, hevs, _⟩ := transferCalls_reports htr
    have hsucceeded : NoneFails evs := by
      by_contra hnot
      have hfailure := hfail request lfs w₁ evs hsetup hevs hnot
      rw [hexit] at hfailure
      cases hfailure
    refine ⟨evs, r, s, hevs, hsucceeded, htr, ?_⟩
    have hnone := (hzero hexit).2
    rw [hunmount, Option.some.injEq] at hnone
    exact lfsUnmount_result.mp hnone
  · intro hall
    cases hsetup : setup sys args w with
    | finished f₁ w₁ =>
      have hf : f = f₁ := by
        simp only [main, hsetup, Option.some.injEq, Prod.mk.injEq] at h
        exact h.1.symm
      refine ⟨fun hexit => ?_, fun _ _ _ _ hm => by rw [hsetup] at hm; cases hm⟩
      rw [hf] at hexit
      exact absurd hexit (setup_fails hsetup)
    | mounted request lfs w₁ =>
      obtain ⟨evs, r, s, hevs, hsucceeded, htr, hunmount⟩ := hall request lfs w₁ hsetup
      obtain ⟨r', s', htr', hexit, htraversal, hunmounted⟩ := main_mounted hsetup h
      rw [htr, Option.some.injEq, Prod.mk.injEq] at htr'
      obtain ⟨rfl, rfl⟩ := htr'
      refine ⟨fun _ => ⟨?_, ?_⟩, fun request' lfs' w₁' evs' hm hevs' hnot => ?_⟩
      · obtain ⟨evs', hevs', hclean⟩ := transferCalls_reports htr
        rw [hevs, Option.some.injEq] at hevs'
        subst hevs'
        rw [htraversal, hclean.mpr hsucceeded.clean]
      · rw [hunmounted, lfsUnmount_result.mpr hunmount]
      · rw [hsetup] at hm
        cases hm
        rw [hevs, Option.some.injEq] at hevs'
        subst hevs'
        exact absurd hsucceeded hnot

end ExitStatus

def treeStdio : Stdio World where
  fopen _ _ w := (true, w)
  fseek _ w := (0, w)
  fread n w := (List.replicate n 0, w)
  fwrite data w := (data.length, w)
  fputc b w := (b.toNat, w)
  fflush w := (0, w)

def treeSys (env : Env) : Sys World := ⟨treeLibc env, treeStdio, treeLfs env, treePosix env⟩

/-- `-x -i a -d /out` -/
def extractArgs : List CString :=
  [[dash, 120], [dash, 105], aName, [dash, 100], calmEnv.directory]

def brokenEnv : Env := { calmEnv with native := fun i => ⟨false, false, none, none, i, [], false⟩ }

theorem exit_reports_iff_brokenEnv :
    ∃ f w', main (treeSys brokenEnv) 8 extractArgs (oneFile aName) = some (f, w') ∧
      (ExitRight (treeSys brokenEnv) 8 extractArgs (oneFile aName) f ↔
        NothingFails (treeSys brokenEnv) 8 extractArgs (oneFile aName)) := by
  have hreturns : (main (treeSys brokenEnv) 8 extractArgs (oneFile aName)).isSome = true := by
    decide +kernel
  obtain ⟨⟨f, w'⟩, h⟩ := Option.isSome_iff_exists.mp hreturns
  exact ⟨f, w', h, exit_reports_iff (treeSys brokenEnv) 8 extractArgs (oneFile aName) w' f h⟩

/-- The directory cannot be made, nothing is extracted, and the status is success. -/
theorem exit_success_brokenEnv :
    ∃ f w', main (treeSys brokenEnv) 8 extractArgs (oneFile aName) = some (f, w') ∧
      f.exit = .status EXIT_SUCCESS ∧ f.traversal = some (-1) ∧
      ¬ExitRight (treeSys brokenEnv) 8 extractArgs (oneFile aName) f := by
  have hrun : (main (treeSys brokenEnv) 8 extractArgs (oneFile aName)).map Prod.fst =
      some ⟨.status EXIT_SUCCESS, some (-1), some 0⟩ := by
    decide +kernel
  obtain ⟨⟨f, w'⟩, h, rfl⟩ := Option.map_eq_some_iff.mp hrun
  refine ⟨_, w', h, rfl, rfl, fun hright => ?_⟩
  have hzero := (hright.success rfl).1
  cases hzero

end LfsTool
