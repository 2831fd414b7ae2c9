import LfsTool.Logged
import LfsTool.ShortReads

/-!
# LfsTool.Failures

Which failing calls the walk reports. Every call of the walk is recorded with its success
(`Vfs.logged`), a write as successful when it stores the full count.

* `FileRun.reports`, `WalkRun.reports`: a run returns 0 exactly if none of its calls failed apart from
  closes.
* `failures_reported_iff`: so the failing close of a target file is the one failure of a call that is
  needed for the copy and may be lost: under `done` it is only printed.
-/

namespace LfsTool

open PathSyntax TreeFs WalkState

inductive Op where
  | open_
  | close
  | read
  | write
  | opendir
  | closedir
  | readdir
  | mkdir
  deriving DecidableEq

section Logged

variable {ε σ φ δ : Type}

def Vfs.logged (v : Vfs σ φ δ) (ev : Op → Bool → ε) : Vfs (Logged ε σ) φ δ where
  open_ path flags w :=
    let r := v.open_ path flags w.sys
    w.call r (ev .open_ r.1.isSome)
  close fd w :=
    let r := v.close fd w.sys
    w.call r (ev .close (r.1 = 0))
  read fd buf n w :=
    let r := v.read fd buf n w.sys
    w.call r (ev .read (0 ≤ r.1.1))
  write fd buf n w :=
    let r := v.write fd buf n w.sys
    w.call r (ev .write (r.1 = n))
  opendir path w :=
    let r := v.opendir path w.sys
    w.call r (ev .opendir r.1.isSome)
  closedir dir w :=
    let r := v.closedir dir w.sys
    w.call r (ev .closedir (r.1 = 0))
  readdir dir slot w :=
    let r := v.readdir dir slot w.sys
    w.call r (ev .readdir r.1.1)
  mkdir path w :=
    let r := v.mkdir path w.sys
    w.call r (ev .mkdir (r.1 = 0))

def Libc.logged (libc : Libc σ) (ev : Bool → ε) : Libc (Logged ε σ) where
  malloc n w :=
    let r := libc.malloc n w.sys
    w.call r (ev r.1.isSome)
  free p w := { w with sys := libc.free p w.sys }

theorem Vfs.logged_hom (v : Vfs σ φ δ) (ev : Op → Bool → ε) : VfsHom Logged.sys (v.logged ev) v :=
  ⟨fun _ _ _ => rfl, fun _ _ => rfl, fun _ _ _ _ => rfl, fun _ _ _ _ => rfl, fun _ _ => rfl,
    fun _ _ => rfl, fun _ _ _ => rfl, fun _ _ => rfl⟩

theorem Libc.logged_hom (libc : Libc σ) (ev : Bool → ε) :
    LibcHom Logged.sys (libc.logged ev) libc :=
  ⟨fun _ _ => rfl, fun _ _ => rfl⟩

end Logged

/-- A call of the walk, and whether it succeeded; `malloc` is that of `append_dir_alloc`. -/
inductive Event where
  | source (op : Op) (ok : Bool)
  | target (op : Op) (ok : Bool)
  | malloc (ok : Bool)
  deriving DecidableEq

namespace Event

def ok : Event → Bool
  | .source _ ok | .target _ ok | .malloc ok => ok

/-- The copy depends on the call: all but the closes of the source. -/
def required : Event → Bool
  | .source .close _ | .source .closedir _ => false
  | _ => true

/-- A failure that makes the walk return -1. -/
def fatal (e : Event) : Bool := e.required && !e.ok && e ≠ .target .close false

theorem fatal_of_ok {e : Event} (h : e.ok = true) : e.fatal = false := by
  simp [fatal, h]

/-- No close makes the walk stop. -/
theorem fatal_close (ok : Bool) : (Event.target .close ok).fatal = false := by
  cases ok <;> rfl

end Event

/-- All required calls succeeded. -/
def Succeeded (evs : List Event) : Prop := ∀ e ∈ evs, e.required = true → e.ok = true

/-- No failure made the walk stop. -/
def Clean (evs : List Event) : Prop := ∀ e ∈ evs, e.fatal = false

theorem succeeded_iff {evs : List Event} :
    Succeeded evs ↔ Clean evs ∧ .target .close false ∉ evs := by
  constructor
  · intro h
    refine ⟨fun e he => ?_, fun hmem => Bool.false_ne_true (h _ hmem rfl)⟩
    cases hreq : e.required with
    | false => simp [Event.fatal, hreq]
    | true => simp [Event.fatal, h e he hreq]
  · rintro ⟨hclean, hclose⟩ e he hreq
    have hne : e ≠ .target .close false := fun h => hclose (h ▸ he)
    simpa [Event.fatal, hreq, hne] using hclean e he

theorem clean_append {evs evs' : List Event} : Clean (evs ++ evs') ↔ Clean evs ∧ Clean evs' := by
  simp [Clean, or_imp, forall_and]

theorem clean_singleton {e : Event} : Clean [e] ↔ e.fatal = false := by simp [Clean]

/-! ## What a run reports -/

section Reports

variable {σ φ δ φ' δ' : Type}

/-- The calls between two states are clean exactly if the result is 0. -/
def Reports (s : WalkState (Logged Event σ)) (r : Int) (s' : WalkState (Logged Event σ)) : Prop :=
  ∃ evs, s'.sys.log = s.sys.log ++ evs ∧ (r = 0 ↔ Clean evs)

variable {s s₁ s₂ : WalkState (Logged Event σ)} {r err : Int} {e : Event}

theorem Reports.nothing (h : s₁.sys.log = s.sys.log) : Reports s 0 s₁ :=
  ⟨[], by rw [h, List.append_nil], by simp [Clean]⟩

theorem Reports.stop (h : s₁.sys.log = s.sys.log ++ [e]) (he : e.fatal = true) :
    Reports s (-1) s₁ :=
  ⟨[e], h, by rw [clean_singleton, he]; simp⟩

theorem Reports.step (h : s₁.sys.log = s.sys.log ++ [e]) (he : e.fatal = false)
    (h₁ : Reports s₁ r s₂) : Reports s r s₂ := by
  obtain ⟨evs, hlog, hr⟩ := h₁
  refine ⟨e :: evs, by rw [hlog, h, List.append_assoc, List.singleton_append], ?_⟩
  rw [hr, ← List.singleton_append, clean_append, clean_singleton]
  exact ⟨fun hc => ⟨he, hc⟩, fun hc => hc.2⟩

theorem Reports.trans (h : Reports s 0 s₁) (h₁ : Reports s₁ r s₂) : Reports s r s₂ := by
  obtain ⟨evs, hlog, hr⟩ := h
  obtain ⟨evs₁, hlog₁, hr₁⟩ := h₁
  refine ⟨evs ++ evs₁, by rw [hlog₁, hlog, List.append_assoc], ?_⟩
  rw [hr₁, clean_append]
  exact ⟨fun hc => ⟨hr.mp rfl, hc⟩, fun hc => hc.2⟩

theorem Reports.fail (h : Reports s err s₁) (herr : err ≠ 0) : Reports s (-1) s₁ := by
  obtain ⟨evs, hlog, hr⟩ := h
  exact ⟨evs, hlog, ⟨fun h0 => by simp at h0, fun hc => absurd (hr.mpr hc) herr⟩⟩

theorem Reports.after (h : Reports s r s₁) (h₁ : s₂.sys.log = s₁.sys.log ++ [e])
    (he : e.fatal = false) : Reports s r s₂ := by
  obtain ⟨evs, hlog, hr⟩ := h
  refine ⟨evs ++ [e], by rw [h₁, hlog, List.append_assoc], ?_⟩
  rw [hr, clean_append, clean_singleton]
  exact ⟨fun hc => ⟨hc, he⟩, fun hc => hc.1⟩

theorem Reports.same (h : Reports s r s₁) (h₁ : s₂.sys.log = s₁.sys.log) : Reports s r s₂ := by
  obtain ⟨evs, hlog, hr⟩ := h
  exact ⟨evs, by rw [h₁, hlog], hr⟩

/-! What each step records. -/

section Log

variable {vfs : Vfs σ φ δ} {libc : Libc σ} {ev : Op → Bool → Event} {ev' : Bool → Event}

theorem openFile_log {path : CString} {flags : Nat} {o : Option φ}
    (h : s.openFile (vfs.logged ev) path flags = (o, s₁)) :
    s₁.sys.log = s.sys.log ++ [ev .open_ o.isSome] := by
  cases h; rfl

theorem closeFile_log (vfs : Vfs σ φ δ) (ev : Op → Bool → Event) (fd : Option φ)
    (s : WalkState (Logged Event σ)) :
    ∃ ok, (s.closeFile (vfs.logged ev) fd).2.sys.log = s.sys.log ++ [ev .close ok] :=
  ⟨_, rfl⟩

theorem readBuffer_log {fd : Option φ} {rb : Int}
    (h : s.readBuffer (vfs.logged ev) fd = (rb, s₁)) :
    s₁.sys.log = s.sys.log ++ [ev .read (0 ≤ rb)] := by
  cases h; rfl

theorem writeBuffer_log {fd : Option φ} {rb wb : Int}
    (h : s.writeBuffer (vfs.logged ev) fd rb = (wb, s₁)) (hrb : 0 ≤ rb) :
    s₁.sys.log = s.sys.log ++ [ev .write (wb = rb)] := by
  cases h
  simp [Vfs.logged, Logged.call, Int.toNat_of_nonneg hrb]

theorem openDir_log {path : CString} {o : Option δ}
    (h : s.openDir (vfs.logged ev) path = (o, s₁)) :
    s₁.sys.log = s.sys.log ++ [ev .opendir o.isSome] := by
  cases h; rfl

theorem closeDir_log (vfs : Vfs σ φ δ) (ev : Op → Bool → Event) (dir : Option δ)
    (s : WalkState (Logged Event σ)) :
    ∃ ok, (s.closeDir (vfs.logged ev) dir).2.sys.log = s.sys.log ++ [ev .closedir ok] :=
  ⟨_, rfl⟩

theorem readDir_log {dir : Option δ} {found : Bool}
    (h : s.readDir (vfs.logged ev) dir = (found, s₁)) :
    s₁.sys.log = s.sys.log ++ [ev .readdir found] := by
  cases h; rfl

theorem makeDir_log {path : CString} (h : s.makeDir (vfs.logged ev) path = (err, s₁)) :
    s₁.sys.log = s.sys.log ++ [ev .mkdir (err = 0)] := by
  cases h; rfl

theorem entryPath_log {dir : CString} {o : Option HeapString}
    (h : s.entryPath (libc.logged ev') dir = (o, s₁)) :
    s₁.sys.log = s.sys.log ++ [ev' o.isSome] := by
  have happ := (entryPath_sys h).1
  have hw := appendDirAlloc_world (libc.logged ev') dir (cstr s.dirent.name) s.sys
  have ho := appendDirAlloc_isSome (libc.logged ev') dir (cstr s.dirent.name) s.sys
  rw [happ] at hw ho
  dsimp only at hw ho
  rw [hw, ho]
  rfl

end Log

variable {libc : Libc σ} {vfs : Vfs σ φ δ} {target : Vfs σ φ' δ'}

theorem CopyRun.reports {inn : Option φ} {out : Option φ'}
    (h : CopyRun (vfs.logged .source) (target.logged .target) inn out s r s₁) :
    Reports s r s₁ := by
  induction h with
  | readFail hr hneg =>
    refine .stop (readBuffer_log hr) ?_
    simp [Event.fatal, Event.required, Event.ok, hneg]
  | writeFail hr hrb hw hne =>
    refine .step (readBuffer_log hr) (Event.fatal_of_ok (decide_eq_true hrb)) ?_
    refine .stop (writeBuffer_log hw hrb) ?_
    simp [Event.fatal, Event.required, Event.ok, hne]
  | last hr hrb hw _ =>
    refine .step (readBuffer_log hr) (Event.fatal_of_ok (decide_eq_true hrb)) ?_
    exact .step (writeBuffer_log hw hrb) (Event.fatal_of_ok (decide_eq_true rfl)) (.nothing rfl)
  | more hr hrb hw _ _ ih =>
    refine .step (readBuffer_log hr) (Event.fatal_of_ok (decide_eq_true hrb)) ?_
    exact .step (writeBuffer_log hw hrb) (Event.fatal_of_ok (decide_eq_true rfl)) ih

theorem FileRun.reports {path : CString}
    (h : FileRun (vfs.logged .source) (target.logged .target) path s r s₁) :
    Reports s r s₁ := by
  cases h with
  | outFail ho => exact .stop (openFile_log ho) rfl
  | @inFail s₁ s₂ out ho hi =>
    obtain ⟨ok, hclose⟩ := closeFile_log target .target (some out) s₂
    exact .step (openFile_log ho) rfl
      (.after (.stop (openFile_log hi) rfl) hclose (Event.fatal_close ok))
  | @copied s₁ s₂ s₃ out inn _ ho hi hcopy =>
    obtain ⟨ok, hclose⟩ := closeFile_log vfs .source (some inn) s₃
    obtain ⟨ok', hclose'⟩ := closeFile_log target .target (some out)
      (s₃.closeFile (vfs.logged .source) (some inn)).2
    have hcopied : Reports s₂ r _ := (hcopy.reports.after hclose rfl).after hclose' (Event.fatal_close ok')
    exact .step (openFile_log ho) rfl (.step (openFile_log hi) rfl hcopied)

/-- By induction on the run: each way it ends with -1 is through a fatal call, and each way it goes
on through calls that are not. -/
theorem WalkRun.reports {task : Task δ}
    (h : WalkRun (libc.logged .malloc) (vfs.logged .source) (target.logged .target) task s r s₁) :
    Reports s r s₁ := by
  have hfree : ∀ path (s : WalkState (Logged Event σ)),
      (s.freePath (libc.logged .malloc) path).sys.log = s.sys.log := fun _ _ => rfl
  induction h with
  | mkdirFail hm herr =>
    refine .same (.stop (makeDir_log hm) ?_) (hfree _ _)
    simp [Event.fatal, Event.required, Event.ok, herr]
  | opendirFail hm ho =>
    exact .step (makeDir_log hm) rfl (.same (.stop (openDir_log ho) rfl) (hfree _ _))
  | @opened dir s s₁ s₂ s₃ vfsDir r hm ho _ ih =>
    obtain ⟨ok, hclose⟩ := closeDir_log vfs .source (some vfsDir) s₃
    exact .step (makeDir_log hm) rfl (.step (openDir_log ho) rfl (.after ih hclose rfl))
  | readdirFail hd => exact .same (.stop (readDir_log hd) rfl) (hfree _ _)
  | finished hd _ => exact .step (readDir_log hd) rfl (.nothing (hfree _ _))
  | allocFail hd _ ha =>
    exact .step (readDir_log hd) rfl (.same (.stop (entryPath_log ha) rfl) (hfree _ _))
  | entryFail hd _ ha _ herr ih =>
    exact .step (readDir_log hd) rfl
      (.step (entryPath_log ha) rfl (.same (ih.fail herr) (hfree _ _)))
  | next hd _ ha _ _ ihe ihr =>
    exact .step (readDir_log hd) rfl
      (.step (entryPath_log ha) rfl (.trans (.same ihe (hfree _ _)) ihr))
  | file _ hf => exact hf.reports
  | subtree _ _ _ _ ih => exact ih
  | skipped => exact .nothing rfl

end Reports

/-! ## The calls of a run -/

section Calls

variable {σ φ δ φ' δ' : Type}

/-- The calls `process_file` makes. -/
def processFileCalls (vfs : Vfs σ φ δ) (target : Vfs σ φ' δ') (fuel : Nat) (path : CString)
    (s : WalkState σ) : Option (List Event) :=
  (processFile (vfs.logged .source) (target.logged .target) fuel path s.unrecorded).map
    (·.2.sys.log)

/-- The calls `traversal` makes, those of nested calls included. -/
def traversalCalls (libc : Libc σ) (vfs : Vfs σ φ δ) (target : Vfs σ φ' δ') (fuel : Nat)
    (dir : CString) (s : WalkState σ) : Option (List Event) :=
  (traversal (libc.logged .malloc) (vfs.logged .source) (target.logged .target) fuel dir
    s.unrecorded).map (·.2.sys.log)

variable {libc : Libc σ} {vfs : Vfs σ φ δ} {target : Vfs σ φ' δ'}

theorem processFileCalls_reports {fuel : Nat} {path : CString} {s s' : WalkState σ} {r : Int}
    (h : processFile vfs target fuel path s = some (r, s')) :
    ∃ evs, processFileCalls vfs target fuel path s = some evs ∧ (r = 0 ↔ Clean evs) := by
  have hmap := processFile_map (vfs.logged_hom Event.source) (target.logged_hom Event.target) fuel path
    s.unrecorded
  obtain ⟨⟨r', s₁⟩, hlogged, hr⟩ := Option.map_eq_some_iff.mp (hmap.symm.trans h)
  obtain ⟨rfl, _⟩ := Prod.mk.inj hr
  obtain ⟨evs, hlog, hclean⟩ := (processFile_run hlogged).reports
  exact ⟨evs, by rw [processFileCalls, hlogged]; exact congrArg some hlog, hclean⟩

theorem traversalCalls_reports {fuel : Nat} {dir : CString} {s s' : WalkState σ} {r : Int}
    (h : traversal libc vfs target fuel dir s = some (r, s')) :
    ∃ evs, traversalCalls libc vfs target fuel dir s = some evs ∧ (r = 0 ↔ Clean evs) := by
  have hmap := traversal_map (libc.logged_hom Event.malloc) (vfs.logged_hom Event.source)
    (target.logged_hom Event.target) fuel dir s.unrecorded
  obtain ⟨⟨r', s₁⟩, hlogged, hr⟩ := Option.map_eq_some_iff.mp (hmap.symm.trans h)
  obtain ⟨rfl, _⟩ := Prod.mk.inj hr
  obtain ⟨evs, hlog, hclean⟩ := (traversal_run hlogged).reports
  exact ⟨evs, by rw [traversalCalls, hlogged]; exact congrArg some hlog, hclean⟩

/-- When 0 means that no call was fatal, it means success exactly if no target close failed. -/
theorem reported_iff {r : Int} {evs : List Event} (h : r = 0 ↔ Clean evs) :
    (r = 0 → Succeeded evs) ↔
      (.target .close false ∉ evs ∨ ∃ e ∈ evs, e.fatal = true) := by
  rw [h, succeeded_iff]
  constructor
  · intro hs
    by_cases hclean : Clean evs
    · exact .inl (hs hclean).2
    · right
      by_contra hno
      exact hclean fun e he => Bool.eq_false_iff.mpr fun hf => hno ⟨e, he, hf⟩
  · rintro (hclose | ⟨e, he, hfatal⟩) hclean
    · exact ⟨hclean, hclose⟩
    · rw [hclean e he] at hfatal
      cases hfatal

theorem failures_reported_iff (libc : Libc σ) (vfs : Vfs σ φ δ) (target : Vfs σ φ' δ') (fuel : Nat)
    (path : CString) (s s' : WalkState σ) (r : Int) :
    (processFile vfs target fuel path s = some (r, s') →
      ∃ evs, processFileCalls vfs target fuel path s = some evs ∧
        ((r = 0 → Succeeded evs) ↔
          (.target .close false ∉ evs ∨ ∃ e ∈ evs, e.fatal = true))) ∧
    (traversal libc vfs target fuel path s = some (r, s') →
      ∃ evs, traversalCalls libc vfs target fuel path s = some evs ∧
        ((r = 0 → Succeeded evs) ↔
          (.target .close false ∉ evs ∨ ∃ e ∈ evs, e.fatal = true))) := by
  constructor
  · intro h
    obtain ⟨evs, hevs, hr⟩ := processFileCalls_reports h
    exact ⟨evs, hevs, reported_iff hr⟩
  · intro h
    obtain ⟨evs, hevs, hr⟩ := traversalCalls_reports h
    exact ⟨evs, hevs, reported_iff hr⟩

end Calls

/-- The image has no space left when a file is closed. -/
def fullEnv : Env := { calmEnv with image := fun i => ⟨true, false, some 0, none, i, [], false⟩ }

theorem failures_reported_iff_twoBytes :
    ∃ s' evs, processFile (treeNative fullEnv) (treeImage fullEnv) 1 aPath (.start twoBytes) =
        some (0, s') ∧
      processFileCalls (treeNative fullEnv) (treeImage fullEnv) 1 aPath (.start twoBytes) =
        some evs ∧
      (((0 : Int) = 0 → Succeeded evs) ↔
        (.target .close false ∉ evs ∨ ∃ e ∈ evs, e.fatal = true)) := by
  obtain ⟨s', h⟩ := exists_state (r := 0)
    (o := processFile (treeNative fullEnv) (treeImage fullEnv) 1 aPath (.start twoBytes))
    (by decide +kernel)
  obtain ⟨evs, hevs, hiff⟩ := (failures_reported_iff (treeLibc fullEnv) (treeNative fullEnv)
    (treeImage fullEnv) 1 aPath (.start twoBytes) s' 0).1 h
  exact ⟨s', evs, h, hevs, hiff⟩

/-- The close of the target fails, the file is left empty, and the result is 0. -/
theorem unreported_twoBytes :
    ∃ s' evs, processFile (treeNative fullEnv) (treeImage fullEnv) 1 aPath (.start twoBytes) =
        some (0, s') ∧
      processFileCalls (treeNative fullEnv) (treeImage fullEnv) 1 aPath (.start twoBytes) =
        some evs ∧
      .target .close false ∈ evs ∧ ¬Succeeded evs ∧
      s'.sys.image.fs.get [aName] = some (.file []) := by
  have hrun : (processFile (treeNative fullEnv) (treeImage fullEnv) 1 aPath (.start twoBytes)).map
      (fun r => (r.1, r.2.sys.image.fs.get [aName])) = some (0, some (.file [])) := by
    decide +kernel
  have hcalls : processFileCalls (treeNative fullEnv) (treeImage fullEnv) 1 aPath
      (.start twoBytes) = some [.target .open_ true, .source .open_ true, .source .read true,
        .target .write true, .source .close true, .target .close false] := by
    decide +kernel
  obtain ⟨⟨r, s'⟩, h, hr⟩ := Option.map_eq_some_iff.mp hrun
  simp only [Prod.mk.injEq] at hr
  obtain ⟨rfl, hfile⟩ := hr
  refine ⟨s', _, h, hcalls, by simp, fun hs => ?_, hfile⟩
  exact (succeeded_iff.mp hs).2 (by simp)

end LfsTool
