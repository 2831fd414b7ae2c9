import LfsTool.Calls
import LfsTool.Joining
import LfsTool.Recorded

/-!
# LfsTool.NestedPaths

The paths of a walk: those in its calls, and those the native back end gives to the system.

* `Vfs.located`: a back end that records each of its calls with the paths given to the system in it.
* `Places`: where a back end looks for a path of the walk. `vfsNative_places`: under the chosen
  directory.
* `Reads`: a call of the walk moves along a chain of nested entries, and has the path of that chain.
* `WalkRun.reads`: every run of the walk is read by these steps.
-/

namespace LfsTool

open PathSyntax Replay WalkState

/-! ## Calls with the paths given to the system -/

/-- A call of the walk, and the paths of the system calls made in it. -/
structure LocatedCall (φ δ φ' δ' : Type) where
  call : Call φ δ φ' δ'
  paths : List CString

/-- System calls that record each path they are given. -/
def Posix.noted {σ : Type} (px : Posix σ) : Posix (Logged CString σ) :=
  { px.lift with
    open_ := fun path flags w => w.call (px.open_ path flags w.sys) path
    opendir := fun path w => w.call (px.opendir path w.sys) path
    stat := fun path w => w.call (px.stat path w.sys) path
    mkdir := fun path w =>
      match path with
      | none => w.lift (px.mkdir none w.sys)
      | some path => w.call (px.mkdir (some path) w.sys) path }

theorem Posix.noted_hom {σ : Type} (px : Posix σ) : PosixHom Logged.sys px.noted px where
  open_ _ _ _ := rfl
  close _ _ := rfl
  read _ _ _ := rfl
  write _ _ _ := rfl
  opendir _ _ := rfl
  closedir _ _ := rfl
  readdir _ _ := rfl
  stat _ _ := rfl
  mkdir path w := by cases path <;> rfl

section Located

variable {ε σ φ δ : Type}

def Vfs.located (v : Vfs (Logged CString σ) φ δ) (ev : VfsCall φ δ → List CString → ε) :
    Vfs (Logged ε σ) φ δ where
  open_ path flags w :=
    let r := v.open_ path flags ⟨w.sys, []⟩
    w.call (r.1, r.2.sys) (ev (.open_ path flags r.1) r.2.log)
  close fd w :=
    let r := v.close fd ⟨w.sys, []⟩
    w.call (r.1, r.2.sys) (ev (.close fd r.1) r.2.log)
  read fd buf n w :=
    let r := v.read fd buf n ⟨w.sys, []⟩
    w.call (r.1, r.2.sys) (ev (.read fd n r.1.1) r.2.log)
  write fd buf n w :=
    let r := v.write fd buf n ⟨w.sys, []⟩
    w.call (r.1, r.2.sys) (ev (.write fd (buf.take n) n r.1) r.2.log)
  opendir path w :=
    let r := v.opendir path ⟨w.sys, []⟩
    w.call (r.1, r.2.sys) (ev (.opendir path r.1) r.2.log)
  closedir dir w :=
    let r := v.closedir dir ⟨w.sys, []⟩
    w.call (r.1, r.2.sys) (ev (.closedir dir r.1) r.2.log)
  readdir dir slot w :=
    let r := v.readdir dir slot ⟨w.sys, []⟩
    w.call (r.1, r.2.sys) (ev (.readdir dir (if r.1.1 then some r.1.2.entry else none)) r.2.log)
  mkdir path w :=
    let r := v.mkdir path ⟨w.sys, []⟩
    w.call (r.1, r.2.sys) (ev (.mkdir path r.1) r.2.log)

theorem Vfs.located_hom {v : Vfs (Logged CString σ) φ δ} {v' : Vfs σ φ δ} (hv : VfsHom Logged.sys v v')
    (ev : VfsCall φ δ → List CString → ε) : VfsHom Logged.sys (v.located ev) v' where
  open_ path flags w := hv.open_ path flags ⟨w.sys, []⟩
  close fd w := hv.close fd ⟨w.sys, []⟩
  read fd buf n w := hv.read fd buf n ⟨w.sys, []⟩
  write fd buf n w := hv.write fd buf n ⟨w.sys, []⟩
  opendir path w := hv.opendir path ⟨w.sys, []⟩
  closedir dir w := hv.closedir dir ⟨w.sys, []⟩
  readdir dir slot w := hv.readdir dir slot ⟨w.sys, []⟩
  mkdir path w := hv.mkdir path ⟨w.sys, []⟩

end Located

/-! ## Where the back ends look -/

section Places

variable {σ φ δ : Type}

/-- The paths a back end gives to the system: `place path` in a call with `path`, and what is in that
directory when it is read. `handleOf dir path` says that the handle is one of `path`. -/
structure Places (v : Vfs (Logged CString σ) φ δ) (place : CString → CString)
    (handleOf : δ → CString → Prop) : Prop where
  open_ : ∀ path flags w, ∀ q ∈ (v.open_ path flags ⟨w, []⟩).2.log, q = place path
  close : ∀ fd w, (v.close fd ⟨w, []⟩).2.log = []
  read : ∀ fd buf n w, (v.read fd buf n ⟨w, []⟩).2.log = []
  write : ∀ fd buf n w, (v.write fd buf n ⟨w, []⟩).2.log = []
  opendir : ∀ path w, ∀ q ∈ (v.opendir path ⟨w, []⟩).2.log, q = place path
  opens : ∀ path w dir, (v.opendir path ⟨w, []⟩).1 = some dir → handleOf dir path
  closedir : ∀ dir w, (v.closedir dir ⟨w, []⟩).2.log = []
  readdir : ∀ dir path slot w, handleOf dir path → ∃ n,
    (∀ q ∈ (v.readdir (some dir) slot ⟨w, []⟩).2.log, q = joinPath (place path) n) ∧
      ((v.readdir (some dir) slot ⟨w, []⟩).1.1 = true →
        (v.readdir (some dir) slot ⟨w, []⟩).1.2.type ≠ .endMark →
          (v.readdir (some dir) slot ⟨w, []⟩).1.2.entry.name = cstr n)
  mkdir : ∀ path w, ∀ q ∈ (v.mkdir path ⟨w, []⟩).2.log, q = place path

theorem eq_of_mem_nil {log : List CString} (h : log = []) (p : CString) : ∀ q ∈ log, q = p := by
  rintro q hq
  rw [h] at hq
  cases hq

theorem eq_of_mem_noted {log log' : List CString} {p q : CString} (hlog : log = [])
    (hcall : log ++ [p] = log') (hq : q ∈ log') : q = p := by
  rw [← hcall, hlog, List.nil_append] at hq
  exact List.mem_singleton.mp hq

theorem Places.of_keeps {v : Vfs (Logged CString σ) φ δ} (h : VfsKeeps v Logged.log)
    (place : CString → CString) : Places v place fun _ _ => True where
  open_ path flags w := eq_of_mem_nil (h.open_ path flags ⟨w, []⟩) _
  close fd w := h.close fd ⟨w, []⟩
  read fd buf n w := h.read fd buf n ⟨w, []⟩
  write fd buf n w := h.write fd buf n ⟨w, []⟩
  opendir path w := eq_of_mem_nil (h.opendir path ⟨w, []⟩) _
  opens _ _ _ _ := trivial
  closedir dir w := h.closedir dir ⟨w, []⟩
  readdir dir _ slot w _ :=
    ⟨_, eq_of_mem_nil (h.readdir (some dir) slot ⟨w, []⟩) _, fun _ _ => rfl⟩
  mkdir path w := eq_of_mem_nil (h.mkdir path ⟨w, []⟩) _

theorem vfsLfs_places (libc : Libc σ) (lf : Lfs σ) (lfs : Option Ptr) (place : CString → CString) :
    Places (vfsLfs libc.lift lf.lift lfs) place fun _ _ => True :=
  .of_keeps (vfsLfs_keeps libc.lift_keeps lf.lift_keeps lfs) place

theorem vfsNative_places (libc : Libc σ) (px : Posix σ) (contextPath : CString) :
    Places (vfsNative libc.lift px.noted contextPath) (joinPath contextPath)
      fun dir path => dir.dirname.str = joinPath contextPath path where
  open_ path flags w q hq := by
    obtain ⟨_, hlog⟩ | ⟨w₁, w₂, fd, hw₁, hcall, hlog, _⟩ :=
      nativeOpen_cases libc.lift_keeps
        (Prod.eta (nativeOpen libc.lift px.noted contextPath path flags ⟨w, []⟩)).symm
    · exact absurd (hlog ▸ hq) List.not_mem_nil
    · exact eq_of_mem_noted hw₁ (congrArg (·.2.log) hcall) (hlog ▸ hq)
  close fd w := by
    cases fd with
    | none => rfl
    | some file => exact nativeClose_keeps (f := Logged.log) libc.lift_keeps rfl
  read fd buf n w := by
    cases fd with
    | none => rfl
    | some file => exact nativeRead_keeps (f := Logged.log) rfl
  write fd buf n w := by
    cases fd with
    | none => rfl
    | some file => exact nativeWrite_keeps (f := Logged.log) rfl
  opendir path w q hq := by
    obtain ⟨_, hlog⟩ | ⟨w₁, w₂, o, hw₁, hcall, hlog, _⟩ :=
      nativeOpendir_cases libc.lift_keeps
        (Prod.eta (nativeOpendir libc.lift px.noted contextPath path ⟨w, []⟩)).symm
    · exact absurd (hlog ▸ hq) List.not_mem_nil
    · exact eq_of_mem_noted hw₁ (congrArg (·.2.log) hcall) (hlog ▸ hq)
  opens path w dir hdir := by
    obtain ⟨hnone, _⟩ | ⟨w₁, w₂, o, _, _, _, ⟨_, hnone⟩ | ⟨ptr, d, dirname, _, hsome, hstr⟩⟩ :=
      nativeOpendir_cases libc.lift_keeps
        (Prod.eta (nativeOpendir libc.lift px.noted contextPath path ⟨w, []⟩)).symm
    · cases hnone.symm.trans hdir
    · cases hnone.symm.trans hdir
    · have hdir' : some ⟨ptr, d, dirname⟩ = some dir := hsome.symm.trans hdir
      cases hdir'
      exact hstr
  closedir dir w := by
    cases dir with
    | none => rfl
    | some d => exact nativeClosedir_keeps (f := Logged.log) libc.lift_keeps (fun _ => rfl) _
  readdir dir path slot w hdir := by
    obtain ⟨o, w₁, hcall, hcases⟩ := nativeReaddir_cases libc.lift_keeps
      (Prod.eta (nativeReaddir libc.lift px.noted (some dir) slot ⟨w, []⟩)).symm
    have hw₁ : [] = w₁.log := congrArg (·.2.log) hcall
    rcases hcases with ⟨_, hfound, hlog⟩ | ⟨_, _, hslot, hlog⟩ | ⟨dName, _, hentry⟩
    · exact ⟨[], eq_of_mem_nil (hlog.trans hw₁.symm) _, fun h => absurd (hfound.symm.trans h) (by decide)⟩
    · exact ⟨[], eq_of_mem_nil (hlog.trans hw₁.symm) _, fun _ hend => absurd (congrArg Dirent.type hslot) hend⟩
    · refine ⟨dName, ?_⟩
      rcases hentry with ⟨hfound, hlog⟩ | ⟨w₂, w₃, mode, hw₂, hstat, hlog, hslot⟩
      · exact ⟨eq_of_mem_nil (hlog.trans hw₁.symm) _, fun h => absurd (hfound.symm.trans h) (by decide)⟩
      · constructor
        · intro q hq
          rw [← hdir]
          exact eq_of_mem_noted (hw₂.trans hw₁.symm) (congrArg (·.2.log) hstat) (hlog ▸ hq)
        · intro h _
          rcases hslot with hfound | ⟨_, hlen, ⟨_, hslot⟩ | ⟨_, hslot⟩⟩
          · exact absurd (hfound.symm.trans h) (by decide)
          · exact (congrArg (cstr ·.name) hslot).trans (Dirent.setEntry_name _ hlen _)
          · exact (congrArg (cstr ·.name) hslot).trans (Dirent.setEntry_name _ hlen _)
  mkdir path w q hq := by
    obtain ⟨p, w₁, w₂, err, errno, hp, hw₁, hcall, hlog, _⟩ := nativeMkdir_cases libc.lift_keeps
      (Prod.eta (nativeMkdir libc.lift px.noted contextPath path ⟨w, []⟩)).symm
    have hmem : q ∈ w₂.log := hlog ▸ hq
    rcases hp with rfl | rfl
    · have hw₂ : w₁.log = w₂.log := congrArg (·.2.log) hcall
      rw [← hw₂, hw₁] at hmem
      exact absurd hmem List.not_mem_nil
    · exact eq_of_mem_noted hw₁ (congrArg (·.2.log) hcall) hmem

end Places

/-! What the calls of a walk record. -/

section Record

variable {ε σ φ δ : Type} {v : Vfs (Logged CString σ) φ δ} {place : CString → CString}
  {handleOf : δ → CString → Prop} {ev : VfsCall φ δ → List CString → ε} {s s₁ : WalkState (Logged ε σ)}

theorem openFile_located (hv : Places v place handleOf) {path : CString} {flags : Nat} {fd : Option φ}
    (h : s.openFile (v.located ev) path flags = (fd, s₁)) :
    ∃ paths, s₁.sys.log = s.sys.log ++ [ev (.open_ path flags fd) paths] ∧
      ∀ q ∈ paths, q = place path := by
  cases h
  exact ⟨_, rfl, hv.open_ path flags s.sys.sys⟩

theorem closeFile_located (hv : Places v place handleOf) (fd : Option φ) (s : WalkState (Logged ε σ)) :
    ∃ err, (s.closeFile (v.located ev) fd).2.sys.log = s.sys.log ++ [ev (.close fd err) []] :=
  ⟨_, by rw [← hv.close fd s.sys.sys]; rfl⟩

theorem readBuffer_located (hv : Places v place handleOf) {fd : Option φ} {rb : Int}
    (h : s.readBuffer (v.located ev) fd = (rb, s₁)) :
    s₁.sys.log = s.sys.log ++ [ev (.read fd bufferSize rb) []] := by
  cases h
  rw [← hv.read fd s.mBuffer bufferSize s.sys.sys]
  rfl

theorem writeBuffer_located (hv : Places v place handleOf) {fd : Option φ} {rb wb : Int}
    (h : s.writeBuffer (v.located ev) fd rb = (wb, s₁)) :
    s₁.sys.log = s.sys.log ++ [ev (.write fd (s.mBuffer.take rb.toNat) rb.toNat wb) []] := by
  cases h
  rw [← hv.write fd s.mBuffer rb.toNat s.sys.sys]
  rfl

theorem openDir_located (hv : Places v place handleOf) {path : CString} {dir : Option δ}
    (h : s.openDir (v.located ev) path = (dir, s₁)) :
    ∃ paths, s₁.sys.log = s.sys.log ++ [ev (.opendir path dir) paths] ∧
      (∀ q ∈ paths, q = place path) ∧ ∀ d, dir = some d → handleOf d path := by
  cases h
  exact ⟨_, rfl, hv.opendir path s.sys.sys, hv.opens path s.sys.sys⟩

theorem closeDir_located (hv : Places v place handleOf) (dir : Option δ) (s : WalkState (Logged ε σ)) :
    ∃ err, (s.closeDir (v.located ev) dir).2.sys.log = s.sys.log ++ [ev (.closedir dir err) []] :=
  ⟨_, by rw [← hv.closedir dir s.sys.sys]; rfl⟩

theorem readDir_located (hv : Places v place handleOf) {dir : δ} {path : CString} {found : Bool}
    (hdir : handleOf dir path) (h : s.readDir (v.located ev) (some dir) = (found, s₁)) :
    ∃ paths n, s₁.sys.log = s.sys.log ++
        [ev (.readdir (some dir) (if found then some s₁.dirent.entry else none)) paths] ∧
      (∀ q ∈ paths, q = joinPath (place path) n) ∧
      (found = true → s₁.dirent.type ≠ .endMark → s₁.dirent.entry.name = cstr n) := by
  obtain ⟨n, hpaths, hname⟩ := hv.readdir dir path s.dirent s.sys.sys hdir
  cases h
  exact ⟨_, n, rfl, hpaths, hname⟩

theorem makeDir_located (hv : Places v place handleOf) {path : CString} {err : Int}
    (h : s.makeDir (v.located ev) path = (err, s₁)) :
    ∃ paths, s₁.sys.log = s.sys.log ++ [ev (.mkdir path err) paths] ∧ ∀ q ∈ paths, q = place path := by
  cases h
  exact ⟨_, rfl, hv.mkdir path s.sys.sys⟩

end Record

/-! ## Chains of nested entries -/

section Reads

variable {φ δ φ' δ' : Type}

def VfsCall.path? : VfsCall φ δ → Option CString
  | .open_ path _ _ | .opendir path _ | .mkdir path _ => some path
  | _ => none

def Call.path? : Call φ δ φ' δ' → Option CString
  | .source c => c.path?
  | .target c => c.path?

def VfsCall.isData : VfsCall φ δ → Bool
  | .close _ _ | .read _ _ _ | .write _ _ _ _ => true
  | _ => false

def Call.isData : Call φ δ φ' δ' → Bool
  | .source c => c.isData
  | .target c => c.isData

def Call.openedDir : Call φ δ φ' δ' → Option δ
  | .source (.opendir _ dir) => dir
  | _ => none

/-- An open directory of the source: its handle, the names that lead to it from the root, and the
entry read from it last. -/
structure Frame (δ : Type) where
  dir : δ
  names : List Name
  entry : Option Name

/-- The names that lead from the root to what the walk is at: to the root itself, or to the entry read
last from the directory opened last. -/
def position : List (Frame δ) → Option (List Name)
  | [] => some []
  | f :: _ => f.entry.map (f.names ++ [·])

/-- The open directories before and after a call. Its path is the one of the chain of entries the
walk is at, and a system call made in it has that path in the place where the back end looks. -/
inductive Reads (place : CString → CString) :
    List (Frame δ) → LocatedCall φ δ φ' δ' → List (Frame δ) → Prop where
  | at_ {st : List (Frame δ)} {c : Call φ δ φ' δ'} {names : List Name} {paths : List CString} :
      position st = some names → c.path? = some (chainPath names) → c.openedDir = none →
      (∀ q ∈ paths, q = place (chainPath names)) → Reads place st ⟨c, paths⟩ st
  | opendir {st : List (Frame δ)} {dir : δ} {names : List Name} {paths : List CString} :
      position st = some names → (∀ q ∈ paths, q = place (chainPath names)) →
      Reads place st ⟨.source (.opendir (chainPath names) (some dir)), paths⟩ (⟨dir, names, none⟩ :: st)
  | readdir {st : List (Frame δ)} {f : Frame δ} {n : Name} {entry : Option Entry}
      {paths : List CString} :
      (∀ q ∈ paths, q = joinPath (place (chainPath f.names)) n) →
      (∀ e, entry = some e → e.type ≠ .endMark → e.name = cstr n) →
      Reads place (f :: st) ⟨.source (.readdir (some f.dir) entry), paths⟩
        ({ f with entry := entry.map (·.name) } :: st)
  | closedir {st : List (Frame δ)} {f : Frame δ} {err : Int} :
      Reads place (f :: st) ⟨.source (.closedir (some f.dir) err), []⟩ st
  | data {st : List (Frame δ)} {c : Call φ δ φ' δ'} : c.isData = true → Reads place st ⟨c, []⟩ st

variable {place : CString → CString} {st st' : List (Frame δ)}

theorem VfsCall.path?_of_isData {c : VfsCall φ δ} (h : c.isData = true) : c.path? = none := by
  cases c <;> first | rfl | cases h

theorem Call.path?_of_isData {c : Call φ δ φ' δ'} (h : c.isData = true) : c.path? = none := by
  cases c with
  | source c => exact VfsCall.path?_of_isData h
  | target c => exact VfsCall.path?_of_isData h

theorem Reads.path {e : LocatedCall φ δ φ' δ'} (h : Reads place st e st') {p : CString}
    (hp : e.call.path? = some p) :
    ∃ names, position st = some names ∧ p = chainPath names ∧
      ∀ q ∈ e.paths, q = place (chainPath names) := by
  cases h with
  | at_ hposition hpath _ hpaths =>
    exact ⟨_, hposition, Option.some.inj (hp.symm.trans hpath), hpaths⟩
  | opendir hposition hpaths => exact ⟨_, hposition, (Option.some.inj hp).symm, hpaths⟩
  | readdir _ _ => cases hp
  | closedir => cases hp
  | data hdata => cases (Call.path?_of_isData hdata).symm.trans hp

/-- What is looked up while a directory is read is the entry that is delivered. -/
theorem Reads.stat {dir : Option δ} {entry : Option Entry} {paths : List CString}
    (h : Reads place st (⟨.source (.readdir dir entry), paths⟩ : LocatedCall φ δ φ' δ') st') :
    ∃ f rest n, st = f :: rest ∧ dir = some f.dir ∧
      (∀ q ∈ paths, q = joinPath (place (chainPath f.names)) n) ∧
      ∀ e, entry = some e → e.type ≠ .endMark → e.name = cstr n := by
  cases h with
  | at_ _ hpath _ _ => cases hpath
  | @readdir st f n _ _ hpaths hname => exact ⟨f, st, n, rfl, rfl, hpaths, hname⟩
  | data hdata => cases hdata

end Reads

/-! ## The runs of the walk -/

section Walk

variable {σ φ δ φ' δ' : Type}

def Vfs.locatedSource (vfs : Vfs (Logged CString σ) φ δ) :
    Vfs (Logged (LocatedCall φ δ φ' δ') σ) φ δ :=
  vfs.located fun c paths => ⟨.source c, paths⟩

def Vfs.locatedTarget (target : Vfs (Logged CString σ) φ' δ') :
    Vfs (Logged (LocatedCall φ δ φ' δ') σ) φ' δ' :=
  target.located fun c paths => ⟨.target c, paths⟩

variable {libc : Libc σ} {vfs : Vfs (Logged CString σ) φ δ} {target : Vfs (Logged CString σ) φ' δ'}
  {place : CString → CString} {handleOf : δ → CString → Prop} {handleOf' : δ' → CString → Prop}
  {s s₁ s₂ : WalkState (Logged (LocatedCall φ δ φ' δ') σ)} {st : List (Frame δ)} {names : List Name}
  {r : Int}

theorem CopyRun.reads (hv : Places vfs place handleOf) (ht : Places target place handleOf')
    {inn : Option φ} {out : Option φ'} (h : CopyRun vfs.locatedSource target.locatedTarget inn out s r s₁) :
    TracedRun (Reads place) st st s s₁ := by
  induction h with
  | readFail hr _ => exact .call (readBuffer_located hv hr) (.data rfl)
  | writeFail hr _ hw _ =>
    exact (TracedRun.call (readBuffer_located hv hr) (.data rfl)).trans
      (.call (writeBuffer_located ht hw) (.data rfl))
  | last hr _ hw _ =>
    exact (TracedRun.call (readBuffer_located hv hr) (.data rfl)).trans
      (.call (writeBuffer_located ht hw) (.data rfl))
  | more hr _ hw _ _ ih =>
    exact (TracedRun.call (readBuffer_located hv hr) (.data rfl)).trans
      ((TracedRun.call (writeBuffer_located ht hw) (.data rfl)).trans ih)

theorem FileRun.reads (hv : Places vfs place handleOf) (ht : Places target place handleOf')
    (hst : position st = some names)
    (h : FileRun vfs.locatedSource target.locatedTarget (chainPath names) s r s₁) :
    TracedRun (Reads place) st st s s₁ := by
  cases h with
  | outFail hout =>
    obtain ⟨paths, hlog, hpaths⟩ := openFile_located ht hout
    exact .call hlog (.at_ hst rfl rfl hpaths)
  | @inFail s₂ s₃ out hout hinn =>
    obtain ⟨paths, hlog, hpaths⟩ := openFile_located ht hout
    obtain ⟨paths', hlog', hpaths'⟩ := openFile_located hv hinn
    obtain ⟨err, hclose⟩ := closeFile_located ht (some out) s₃
    exact (TracedRun.call hlog (.at_ hst rfl rfl hpaths)).trans
      ((TracedRun.call hlog' (.at_ hst rfl rfl hpaths')).trans (.call hclose (.data rfl)))
  | @copied s₂ s₃ s₄ out inn _ hout hinn hcopy =>
    obtain ⟨paths, hlog, hpaths⟩ := openFile_located ht hout
    obtain ⟨paths', hlog', hpaths'⟩ := openFile_located hv hinn
    obtain ⟨err, hclose⟩ := closeFile_located hv (some inn) s₄
    obtain ⟨err', hclose'⟩ := closeFile_located ht (some out) (s₄.closeFile vfs.locatedSource (some inn)).2
    exact (TracedRun.call hlog (.at_ hst rfl rfl hpaths)).trans
      ((TracedRun.call hlog' (.at_ hst rfl rfl hpaths')).trans
        ((hcopy.reads hv ht).trans
          ((TracedRun.call hclose (.data rfl)).trans (.call hclose' (.data rfl)))))

/-- The calls of a task move along the chain the task is at. An entry loop leaves its own directory in
front, with the entry it has read last. -/
def Task.Moves (place : CString → CString) (handleOf : δ → CString → Prop)
    (s s₁ : WalkState (Logged (LocatedCall φ δ φ' δ') σ)) : Task δ → Prop
  | .tree path | .entry path => ∀ st names, position st = some names → path = chainPath names →
      TracedRun (Reads place) st st s s₁
  | .entries path dir => ∀ st names entry, path = chainPath names → handleOf dir path →
      ∃ entry', TracedRun (Reads place) (⟨dir, names, entry⟩ :: st) (⟨dir, names, entry'⟩ :: st) s s₁

theorem readDir_reads (hv : Places vfs place handleOf) {dir : δ} {found : Bool} {entry : Option Name}
    (hdir : handleOf dir (chainPath names))
    (h : s.readDir vfs.locatedSource (some dir) = (found, s₁)) :
    TracedRun (Reads place) (⟨dir, names, entry⟩ :: st)
      (⟨dir, names, if found then some (cstr s₁.dirent.name) else none⟩ :: st) s s₁ := by
  obtain ⟨paths, n, hlog, hpaths, hname⟩ := readDir_located hv hdir h
  cases found with
  | true =>
    exact .call hlog (.readdir (f := ⟨dir, names, entry⟩) hpaths fun e he hend => by
      cases he
      exact hname rfl hend)
  | false => exact .call hlog (.readdir (f := ⟨dir, names, entry⟩) hpaths fun e he => by cases he)

theorem WalkRun.reads (hv : Places vfs place handleOf) (ht : Places target place handleOf')
    {task : Task δ} (h : WalkRun libc.lift vfs.locatedSource target.locatedTarget task s r s₁) :
    task.Moves place handleOf s s₁ := by
  have hfree : ∀ path (s : WalkState (Logged (LocatedCall φ δ φ' δ') σ)),
      (s.freePath libc.lift path).sys.log = s.sys.log := fun _ _ => rfl
  -- the path of an entry is the chain with its name added
  have hentry : ∀ {dir names path} {s s₁ : WalkState (Logged (LocatedCall φ δ φ' δ') σ)},
      s.entryPath libc.lift dir = (some path, s₁) → dir = chainPath names →
        s₁.sys.log = s.sys.log ∧ path.str = chainPath (names ++ [cstr s.dirent.name]) := by
    rintro dir names path s s₁ ha rfl
    refine ⟨entryPath_keeps libc.lift_keeps ha, ?_⟩
    rw [chainPath_concat]
    exact appendDirAlloc_some (entryPath_sys ha).1
  induction h with
  | mkdirFail hm _ =>
    rintro st names hst rfl
    obtain ⟨paths, hlog, hpaths⟩ := makeDir_located ht hm
    exact (TracedRun.call hlog (.at_ hst rfl rfl hpaths)).same (hfree _ _)
  | opendirFail hm ho =>
    rintro st names hst rfl
    obtain ⟨paths, hlog, hpaths⟩ := makeDir_located ht hm
    obtain ⟨paths', hlog', hpaths', _⟩ := openDir_located hv ho
    exact (TracedRun.call hlog (.at_ hst rfl rfl hpaths)).trans
      ((TracedRun.call hlog' (.at_ hst rfl rfl hpaths')).same (hfree _ _))
  | @opened dir s s₁ s₂ s₃ vfsDir r hm ho _ ih =>
    rintro st names hst rfl
    obtain ⟨paths, hlog, hpaths⟩ := makeDir_located ht hm
    obtain ⟨paths', hlog', hpaths', hhandle⟩ := openDir_located hv ho
    obtain ⟨entry', hloop⟩ := ih st names none rfl (hhandle vfsDir rfl)
    obtain ⟨err, hclose⟩ := closeDir_located hv (some vfsDir) s₃
    exact (TracedRun.call hlog (.at_ hst rfl rfl hpaths)).trans
      ((TracedRun.call hlog' (.opendir hst hpaths')).trans
        (hloop.trans (.call hclose (.closedir (f := ⟨vfsDir, names, entry'⟩)))))
  | readdirFail hd =>
    rintro st names entry rfl hdir
    exact ⟨_, (readDir_reads hv hdir hd).same (hfree _ _)⟩
  | finished hd _ =>
    rintro st names entry rfl hdir
    exact ⟨_, (readDir_reads hv hdir hd).same (hfree _ _)⟩
  | allocFail hd _ ha =>
    rintro st names entry rfl hdir
    exact ⟨_, (readDir_reads hv hdir hd).same
      ((hfree _ _).trans (entryPath_keeps libc.lift_keeps ha))⟩
  | entryFail hd _ ha _ _ ih =>
    rintro st names entry rfl hdir
    obtain ⟨hlog, hpath⟩ := hentry ha rfl
    exact ⟨_, ((readDir_reads hv hdir hd).same hlog).trans ((ih _ _ rfl hpath).same (hfree _ _))⟩
  | next hd _ ha _ _ ihe ihr =>
    rintro st names entry rfl hdir
    obtain ⟨hlog, hpath⟩ := hentry ha rfl
    obtain ⟨entry', hrest⟩ := ihr st names _ rfl hdir
    exact ⟨entry', ((readDir_reads hv hdir hd).same hlog).trans
      (((ihe _ _ rfl hpath).same (hfree _ _)).trans hrest)⟩
  | file _ hf =>
    rintro st names hst rfl
    exact hf.reads hv ht hst
  | subtree _ _ _ _ ih =>
    rintro st names hst rfl
    exact ih st names hst rfl
  | skipped => exact fun _ _ _ _ => .silent rfl

/-- The calls of `traversal` with the paths given to the system in them. -/
def locatedTrace (libc : Libc σ) (vfs : Vfs (Logged CString σ) φ δ)
    (target : Vfs (Logged CString σ) φ' δ') (fuel : Nat) (dir : CString) (s : WalkState σ) :
    Option (List (LocatedCall φ δ φ' δ')) :=
  (traversal libc.lift vfs.locatedSource target.locatedTarget fuel dir s.unrecorded).map (·.2.sys.log)

/-- The calls of a traversal from the root move along chains of nested entries. -/
theorem locatedTrace_reads {vfs₀ : Vfs σ φ δ} {target₀ : Vfs σ φ' δ'} {fuel : Nat} {s s' : WalkState σ}
    (hv : Places vfs place handleOf) (ht : Places target place handleOf')
    (hsource : VfsHom Logged.sys vfs vfs₀) (htarget : VfsHom Logged.sys target target₀)
    (h : traversal libc vfs₀ target₀ fuel [slash] s = some (r, s')) :
    ∃ calls, locatedTrace libc vfs target fuel [slash] s = some calls ∧ Run (Reads place) [] calls [] := by
  have hl : LibcHom Logged.sys (libc.lift : Libc (Logged (LocatedCall φ δ φ' δ') σ)) libc := libc.lift_hom
  have hsource' : VfsHom Logged.sys (vfs.locatedSource : Vfs (Logged (LocatedCall φ δ φ' δ') σ) φ δ) vfs₀ :=
    Vfs.located_hom hsource _
  have htarget' : VfsHom Logged.sys
      (target.locatedTarget : Vfs (Logged (LocatedCall φ δ φ' δ') σ) φ' δ') target₀ :=
    Vfs.located_hom htarget _
  have hmap := traversal_map hl hsource' htarget' fuel [slash] s.unrecorded
  obtain ⟨⟨r', s₁⟩, htraced, _⟩ := Option.map_eq_some_iff.mp (hmap.symm.trans h)
  obtain ⟨calls, hlog, hrun⟩ := (traversal_run htraced).reads hv ht [] [] rfl rfl
  have hcalls : s₁.sys.log = calls := hlog
  refine ⟨calls, ?_, hrun⟩
  rw [← hcalls]
  exact congrArg (Option.map _) htraced

end Walk

/-! ## Path joining -/

section Joining

variable {φ δ φ' δ' : Type}

/-- Every call of a walk has the path of the chain of nested entries the walk is at, and the native
back end looks for it under the directory `contextPath`, where it also looks up the entries of a
directory it reads. -/
structure ChainPaths (contextPath : CString) (calls : List (LocatedCall φ δ φ' δ')) : Prop where
  chains : Run (Reads (joinPath contextPath)) [] calls []
  path : ∀ before e after p, calls = before ++ e :: after → e.call.path? = some p →
    ∃ st names, Run (Reads (joinPath contextPath)) [] before st ∧ position st = some names ∧
      p = chainPath names ∧ components p = names.flatMap components ∧
      ((∀ n ∈ names, n ≠ [] ∧ slash ∉ n) → components p = names) ∧
      ∀ q ∈ e.paths, components q = components contextPath ++ components p
  stat : ∀ before dir entry paths after,
    calls = before ++ ⟨.source (.readdir dir entry), paths⟩ :: after →
    ∃ f rest n, Run (Reads (joinPath contextPath)) [] before (f :: rest) ∧ dir = some f.dir ∧
      (∀ q ∈ paths, components q =
        components contextPath ++ components (chainPath f.names) ++ components n) ∧
      ∀ e, entry = some e → e.type ≠ .endMark → e.name = cstr n

theorem ChainPaths.of_run {contextPath : CString} {calls : List (LocatedCall φ δ φ' δ')}
    (h : Run (Reads (joinPath contextPath)) [] calls []) : ChainPaths contextPath calls where
  chains := h
  path := by
    rintro before e after p rfl hp
    obtain ⟨st, hbefore, hrest⟩ := h.split
    cases hrest with
    | cons hstep _ =>
      obtain ⟨names, hst, rfl, hpaths⟩ := hstep.path hp
      refine ⟨st, names, hbefore, hst, rfl, components_chainPath names, fun hnames => ?_, fun q hq => ?_⟩
      · rw [components_chainPath, flatMap_components hnames]
      · rw [hpaths q hq, components_joinPath]
  stat := by
    rintro before dir entry paths after rfl
    obtain ⟨st, hbefore, hrest⟩ := h.split
    cases hrest with
    | cons hstep _ =>
      obtain ⟨f, rest, n, rfl, hdir, hpaths, hname⟩ := hstep.stat
      refine ⟨f, rest, n, hbefore, hdir, fun q hq => ?_, hname⟩
      rw [hpaths q hq, components_joinPath, components_joinPath]

/-- Without overflow `append_dir_alloc` stays in the block it allocates, and the components of the
string in it are those of the directory and of the path. So are those of every path of an extraction
or a creation, along any chain of entries; and a path tells the chain. -/
theorem paths_joined {σ : Type} (libc : Libc σ) (lf : Lfs σ) (lfs : Option Ptr) (px : Posix σ)
    (contextPath : CString) :
    (∀ dirArray pathArray dir path, CStrings.Holds dirArray dir → CStrings.Holds pathArray path →
      dir.length + path.length + 1 + 1 < 2 ^ 64 →
      ∃ size, resultSize dirArray pathArray = some size ∧ ∀ block, block.length = size.toNat →
        ∃ result, appendDir dirArray pathArray block = some result ∧ result.length = size.toNat ∧
          CStrings.Holds result (cstr result) ∧
          components (cstr result) = components dir ++ components path ∧
          ∀ w, appendDirAlloc libc dir path w =
            (libc.malloc size.toNat w).map (Option.map (⟨·, cstr result⟩)) id) ∧
    (∀ fuel s r s', traversal libc (vfsLfs libc lf lfs) (vfsNative libc px contextPath) fuel [slash] s =
      some (r, s') → ∃ calls, locatedTrace libc (vfsLfs libc.lift lf.lift lfs)
        (vfsNative libc.lift px.noted contextPath) fuel [slash] s = some calls ∧
          ChainPaths contextPath calls) ∧
    (∀ fuel s r s', traversal libc (vfsNative libc px contextPath) (vfsLfs libc lf lfs) fuel [slash] s =
      some (r, s') → ∃ calls, locatedTrace libc (vfsNative libc.lift px.noted contextPath)
        (vfsLfs libc.lift lf.lift lfs) fuel [slash] s = some calls ∧ ChainPaths contextPath calls) ∧
    (∀ names names' : List Name, (∀ n ∈ names, n ≠ [] ∧ slash ∉ n) → (∀ n ∈ names', n ≠ [] ∧ slash ∉ n) →
      (chainPath names = chainPath names' ∨
        joinPath contextPath (chainPath names) = joinPath contextPath (chainPath names')) →
      names = names') := by
  have hl : LibcHom Logged.sys (libc.lift : Libc (Logged CString σ)) libc := libc.lift_hom
  have hnative := vfsNative_places libc px contextPath
  have hlfs := vfsLfs_places libc lf lfs (joinPath contextPath)
  have hnative₀ := vfsNative_hom hl px.noted_hom contextPath
  have hlfs₀ := vfsLfs_hom hl lf.lift_hom lfs
  refine ⟨?_, ?_, ?_, ?_⟩
  · intro dirArray pathArray dir path hd hp hsize
    have hnat : (UInt64.ofNat (dir.length + path.length + 1 + 1)).toNat = dir.length + path.length + 1 + 1 :=
      UInt64.toNat_ofNat_of_lt' hsize
    refine ⟨_, resultSize_eq hd hp, fun block hblock => ?_⟩
    obtain ⟨result, happend, hholds, hlen⟩ := appendDir_spec hd hp (hblock.trans hnat).ge
    have hcstr := cstr_of_holds hholds
    refine ⟨result, happend, hlen.trans hblock, hcstr.symm ▸ hholds, ?_, fun w => ?_⟩
    · rw [hcstr, components_joinPath]
    · rw [hcstr, hnat]
      exact appendDirAlloc_eq libc dir path w
  · intro fuel s r s' h
    obtain ⟨calls, htrace, hrun⟩ := locatedTrace_reads hlfs hnative hlfs₀ hnative₀ h
    exact ⟨calls, htrace, .of_run hrun⟩
  · intro fuel s r s' h
    obtain ⟨calls, htrace, hrun⟩ := locatedTrace_reads hnative hlfs hnative₀ hlfs₀ h
    exact ⟨calls, htrace, .of_run hrun⟩
  · rintro names names' hn hn' (heq | heq)
    · exact chainPath_injective hn hn' (congrArg (joinPath []) heq)
    · exact chainPath_injective hn hn' heq

end Joining

end LfsTool
