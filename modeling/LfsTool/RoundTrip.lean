import LfsTool.TreeBackends

/-!
# LfsTool.RoundTrip

What the two walks of `main` do to trees: `traversal(vfs_native, vfs_lfs, "/")`, which creates an
image, and `traversal(vfs_lfs, vfs_native, "/")`, which extracts one.

* `traversal_changes`: whatever fails, a target path is left alone or holds the start of what the
  source has there.
* `transferred_iff`: a run that returns 0 has transferred the source, except when a file of the
  target stood where the source has an empty directory: `vfs_mkdir` takes `EEXIST` for success.
* `round_trip`: into an empty image and back into an empty directory the tree comes out as it was.
-/

namespace LfsTool

open PathSyntax TreeFs

/-- The two walks of `main`. -/
inductive Direction where
  | extract
  | create

namespace Env

variable (env : Env)

def traversal : Direction → Nat → CString → WalkState World → Option (Int × WalkState World)
  | .extract => LfsTool.traversal (treeLibc env) (treeImage env) (treeNative env)
  | .create => LfsTool.traversal (treeLibc env) (treeNative env) (treeImage env)

def source (_ : Env) : Direction → World → Disk
  | .extract, w => w.image
  | .create, w => w.native

def target (_ : Env) : Direction → World → Disk
  | .extract, w => w.native
  | .create, w => w.image

def sourceScript : Direction → Script
  | .extract => env.image
  | .create => env.native

def targetScript : Direction → Script
  | .extract => env.native
  | .create => env.image

def nativeRoot : Path := resolve env.cwd (joinPath env.directory [slash])

def sourceRoot : Direction → Path
  | .extract => []
  | .create => env.nativeRoot

def targetRoot : Direction → Path
  | .extract => env.nativeRoot
  | .create => []

def sourceTree (d : Direction) (w : World) : Tree :=
  fun p => (env.source d w).fs.get (env.sourceRoot d ++ p)

/-- What is where on the side of the target, also outside its root. -/
def targetTree (d : Direction) (w : World) : Tree := (env.target d w).fs.get

end Env

structure TreeAt (t : Tree) (root : Path) : Prop where
  dir : t root = some .dir
  wf : WellFormed t root

/-- Whether bindings make up a tree below `root`. -/
def isTreeAt (fs : Fs) (root : Path) : Bool :=
  fs.get root = some .dir && (fs.map Prod.fst).all fun q =>
    !decide (root <+: q) || q = root ||
      (q.getLast?.all (fun n => Proper n) && fs.get q.dropLast = some .dir)

theorem isTreeAt_spec {fs : Fs} {root : Path} (h : isTreeAt fs root = true) :
    TreeAt fs.get root := by
  simp only [isTreeAt, Bool.and_eq_true, decide_eq_true_eq, List.all_eq_true] at h
  refine ⟨h.1, fun p n hn => ?_⟩
  have hq := h.2 _ (Fs.get_ne_none.mp hn)
  have hne : root ++ (p ++ [n]) ≠ root := by simp
  simpa [hne] using hq

/-- What `WalkRun.tree` says of a whole walk. -/
theorem traversal_post (env : Env) (d : Direction) {fuel : Nat} {s s' : WalkState World} {r : Int}
    (hsrc : TreeAt (env.source d s.sys).fs.get (env.sourceRoot d))
    (h : env.traversal d fuel [slash] s = some (r, s')) :
    (env.source d s'.sys).fs.get = (env.source d s.sys).fs.get ∧
      Changes (env.source d s.sys).fs.get (env.sourceRoot d) (env.targetRoot d) (fun _ => True)
        (env.target d s.sys).fs.get (env.target d s'.sys).fs.get ∧
      (r = 0 → (env.sourceScript d).FullReads → (env.targetScript d).Durable →
        Done (env.source d s.sys).fs.get (env.sourceRoot d) (env.targetRoot d) (fun _ => True)
          (env.target d s'.sys).fs.get) := by
  have hall : ∀ p : Path, [] <+: p ↔ True := fun p => iff_true_intro (List.nil_prefix)
  cases d with
  | extract =>
    have post := ((traversal_run h).tree (extract_env env) hsrc.wf [] names_root
      (by rw [List.append_nil]; exact hsrc.dir) rfl).1
    exact ⟨post.tree, post.changes.mono fun _ _ => trivial,
      fun h0 hf hs => (post.done h0 hf hs).mono fun p _ => (hall p).mpr trivial⟩
  | create =>
    have post := ((traversal_run h).tree (create_env env) hsrc.wf [] names_root
      (by rw [List.append_nil]; exact hsrc.dir) rfl).1
    exact ⟨post.tree, post.changes.mono fun _ _ => trivial,
      fun h0 hf hs => (post.done h0 hf hs).mono fun p _ => (hall p).mpr trivial⟩

/-- A process in which nothing goes wrong, with `-d /out`. -/
def calmEnv : Env where
  malloc n := some (n + 1)
  native := .calm
  image := .calm
  cwd := []
  directory := [slash, 111, 117, 116]
  lfs := some 0

abbrev outName : Name := [111, 117, 116]

abbrev aName : Name := [97]

theorem exists_state {o : Option (Int × WalkState World)} {r : Int} (h : o.map Prod.fst = some r) :
    ∃ s', o = some (r, s') := by
  obtain ⟨⟨r', s'⟩, ho, hr⟩ := Option.map_eq_some_iff.mp h
  cases hr
  exact ⟨s', ho⟩

/-! ## Any run -/

/-- The target, at first `t`, is as it was, save that at paths of the source there are new
directories and starts of files. -/
structure PartialCopy (src t t' : Tree) (root : Path) : Prop where
  outside : ∀ q, (∀ p, q = root ++ p → src p = none) → t' q = t q
  dirs : ∀ p, src p = some .dir → t' (root ++ p) = t (root ++ p) ∨
    t (root ++ p) = none ∧ t' (root ++ p) = some .dir
  files : ∀ p c, src p = some (.file c) → t' (root ++ p) = t (root ++ p) ∨
    ∃ c', t' (root ++ p) = some (.file c') ∧ c' <+: c

section Run

variable {env : Env} {d : Direction} {fuel : Nat} {s s' : WalkState World} {r : Int}

theorem target_allowed (hsrc : TreeAt (env.source d s.sys).fs.get (env.sourceRoot d))
    (h : env.traversal d fuel [slash] s = some (r, s')) (p : Path) :
    Allowed (env.sourceTree d s.sys p) (env.targetTree d s.sys (env.targetRoot d ++ p))
      (env.targetTree d s'.sys (env.targetRoot d ++ p)) := by
  obtain ⟨_, hch, _⟩ := traversal_post env d hsrc h
  rcases hch (env.targetRoot d ++ p) with heq | ⟨p', hpp, _, hal⟩
  · have heq' : env.targetTree d s'.sys (env.targetRoot d ++ p) =
        env.targetTree d s.sys (env.targetRoot d ++ p) := heq
    rw [heq']
    exact .same
  · rw [← List.append_cancel_left hpp] at hal
    exact hal

theorem target_outside (hsrc : TreeAt (env.source d s.sys).fs.get (env.sourceRoot d))
    (h : env.traversal d fuel [slash] s = some (r, s')) {q : Path}
    (hq : ∀ p, q = env.targetRoot d ++ p → env.sourceTree d s.sys p = none) :
    env.targetTree d s'.sys q = env.targetTree d s.sys q := by
  obtain ⟨_, hch, _⟩ := traversal_post env d hsrc h
  rcases hch q with heq | ⟨p, rfl, _, _⟩
  · exact heq
  · have hal := target_allowed hsrc h p
    rw [hq p rfl] at hal
    exact hal.of_none

theorem target_dir (hsrc : TreeAt (env.source d s.sys).fs.get (env.sourceRoot d))
    (h : env.traversal d fuel [slash] s = some (r, s')) {p : Path}
    (hp : env.sourceTree d s.sys p = some .dir) :
    env.targetTree d s'.sys (env.targetRoot d ++ p) =
        env.targetTree d s.sys (env.targetRoot d ++ p) ∨
      env.targetTree d s.sys (env.targetRoot d ++ p) = none ∧
        env.targetTree d s'.sys (env.targetRoot d ++ p) = some .dir := by
  have hal := target_allowed hsrc h p
  rw [hp] at hal
  exact hal.of_dir

theorem target_file (hsrc : TreeAt (env.source d s.sys).fs.get (env.sourceRoot d))
    (h : env.traversal d fuel [slash] s = some (r, s')) {p : Path} {c : List UInt8}
    (hp : env.sourceTree d s.sys p = some (.file c)) :
    env.targetTree d s'.sys (env.targetRoot d ++ p) =
        env.targetTree d s.sys (env.targetRoot d ++ p) ∨
      ∃ c', env.targetTree d s'.sys (env.targetRoot d ++ p) = some (.file c') ∧ c' <+: c := by
  have hal := target_allowed hsrc h p
  rw [hp] at hal
  exact hal.of_file

theorem traversal_changes (hsrc : TreeAt (env.source d s.sys).fs.get (env.sourceRoot d))
    (h : env.traversal d fuel [slash] s = some (r, s')) :
    PartialCopy (env.sourceTree d s.sys) (env.targetTree d s.sys) (env.targetTree d s'.sys)
      (env.targetRoot d) :=
  ⟨fun _ hq => target_outside hsrc h hq, fun _ hp => target_dir hsrc h hp,
    fun _ _ hp => target_file hsrc h hp⟩

end Run

def fileOverDir : World where
  allocs := 0
  native := .idle [([], .dir), ([outName], .dir), ([outName, aName], .dir)]
  image := .idle [([], .dir), ([aName], .file [1])]

theorem traversal_changes_fileOverDir :
    ∃ s', calmEnv.traversal .extract 8 [slash] (.start fileOverDir) = some (-1, s') ∧
      PartialCopy (calmEnv.sourceTree .extract fileOverDir) (calmEnv.targetTree .extract fileOverDir)
        (calmEnv.targetTree .extract s'.sys) (calmEnv.targetRoot .extract) := by
  obtain ⟨s', h⟩ := exists_state
    (o := calmEnv.traversal .extract 8 [slash] (.start fileOverDir)) (r := -1) (by decide +kernel)
  exact ⟨s', h, traversal_changes (isTreeAt_spec (by decide)) h⟩

/-! ## Runs that return 0 -/

def Transferred (src t : Tree) (root : Path) : Prop :=
  ∀ p, (src p = some .dir → t (root ++ p) = some .dir) ∧
    ∀ c, src p = some (.file c) → t (root ++ p) = some (.file c)

def EmptyDir (t : Tree) (p : Path) : Prop := t p = some .dir ∧ ∀ n, t (p ++ [n]) = none

section Success

variable {env : Env} {d : Direction} {fuel : Nat} {s s' : WalkState World}

/-- Where no file stood in the place of an empty directory, all is transferred. -/
theorem transferred_of_no_file
    (hsrc : TreeAt (env.source d s.sys).fs.get (env.sourceRoot d))
    (hfull : (env.sourceScript d).FullReads) (hsure : (env.targetScript d).SureCloses)
    (h : env.traversal d fuel [slash] s = some (0, s'))
    (hno : ∀ p, EmptyDir (env.sourceTree d s.sys) p →
      ∀ c, env.targetTree d s.sys (env.targetRoot d ++ p) ≠ some (.file c)) :
    Transferred (env.sourceTree d s.sys) (env.targetTree d s'.sys) (env.targetRoot d) := by
  obtain ⟨_, _, hdone⟩ := traversal_post env d hsrc h
  intro p
  obtain ⟨hfile, hdir⟩ := hdone rfl hfull hsure.durable p trivial
  refine ⟨fun hp => ?_, hfile⟩
  obtain ⟨hne, hentries⟩ := hdir hp
  by_cases hempty : EmptyDir (env.sourceTree d s.sys) p
  · rcases target_dir hsrc h hp with heq | ⟨_, hdir'⟩
    · cases hbefore : env.targetTree d s.sys (env.targetRoot d ++ p) with
      | none => exact absurd (heq.trans hbefore) hne
      | some node =>
        cases node with
        | file c => exact absurd hbefore (hno p hempty c)
        | dir => exact heq.trans hbefore
    · exact hdir'
  · have hex : ∃ n, env.sourceTree d s.sys (p ++ [n]) ≠ none := by
      by_contra hcon
      exact hempty ⟨hp, fun n => by_contra fun hn => hcon ⟨n, hn⟩⟩
    obtain ⟨n, hn⟩ := hex
    have hn' : (env.source d s.sys).fs.get (env.sourceRoot d ++ p ++ [n]) ≠ none := by
      simpa [Env.sourceTree] using hn
    exact hentries ⟨n, not_isDots (hsrc.wf p n hn').1, hn'⟩

theorem transferred_iff (hsrc : TreeAt (env.source d s.sys).fs.get (env.sourceRoot d))
    (hfull : (env.sourceScript d).FullReads) (hsure : (env.targetScript d).SureCloses)
    (h : env.traversal d fuel [slash] s = some (0, s')) :
    Transferred (env.sourceTree d s.sys) (env.targetTree d s'.sys) (env.targetRoot d) ↔
      ∀ p, EmptyDir (env.sourceTree d s.sys) p →
        ∀ c, env.targetTree d s.sys (env.targetRoot d ++ p) ≠ some (.file c) := by
  refine ⟨fun htr p hp c hc => ?_, transferred_of_no_file hsrc hfull hsure h⟩
  -- a file in the way of a directory stays
  have hafter := (htr p).1 hp.1
  rcases target_dir hsrc h hp.1 with heq | ⟨hnone, _⟩
  · rw [heq, hc] at hafter
    cases hafter
  · rw [hc] at hnone
    cases hnone

end Success

def dirOverFile : World where
  allocs := 0
  native := .idle [([], .dir), ([outName], .dir), ([outName, aName], .file [1])]
  image := .idle [([], .dir), ([aName], .dir)]

theorem transferred_iff_dirOverFile :
    ∃ s', calmEnv.traversal .extract 8 [slash] (.start dirOverFile) = some (0, s') ∧
      (Transferred (calmEnv.sourceTree .extract dirOverFile) (calmEnv.targetTree .extract s'.sys)
          (calmEnv.targetRoot .extract) ↔
        ∀ p, EmptyDir (calmEnv.sourceTree .extract dirOverFile) p →
          ∀ c, calmEnv.targetTree .extract dirOverFile (calmEnv.targetRoot .extract ++ p) ≠
            some (.file c)) := by
  obtain ⟨s', h⟩ := exists_state
    (o := calmEnv.traversal .extract 8 [slash] (.start dirOverFile)) (r := 0) (by decide +kernel)
  exact ⟨s', h, @transferred_iff calmEnv .extract 8 _ s' (isTreeAt_spec (by decide))
    Script.calm_fullReads Script.calm_sureCloses h⟩

/-- The walk returns 0 and the file is still there. -/
theorem not_transferred_dirOverFile :
    ∃ s', calmEnv.traversal .extract 8 [slash] (.start dirOverFile) = some (0, s') ∧
      TreeAt (calmEnv.source .extract dirOverFile).fs.get (calmEnv.sourceRoot .extract) ∧
      (calmEnv.sourceScript .extract).FullReads ∧ (calmEnv.targetScript .extract).SureCloses ∧
      ¬Transferred (calmEnv.sourceTree .extract dirOverFile) (calmEnv.targetTree .extract s'.sys)
        (calmEnv.targetRoot .extract) := by
  have hrun : ((calmEnv.traversal .extract 8 [slash] (.start dirOverFile)).map fun r =>
      (r.1, r.2.sys.native.fs.get [outName, aName])) = some (0, some (.file [1])) := by
    decide +kernel
  obtain ⟨⟨r, s'⟩, h, hr⟩ := Option.map_eq_some_iff.mp hrun
  simp only [Prod.mk.injEq] at hr
  obtain ⟨rfl, hfile⟩ := hr
  refine ⟨s', h, isTreeAt_spec (by decide), Script.calm_fullReads, Script.calm_sureCloses, ?_⟩
  intro htr
  have hdir : s'.sys.native.fs.get [outName, aName] = some .dir := (htr [aName]).1 (by decide)
  rw [hfile] at hdir
  cases hdir

/-! ## There and back -/

structure Vacant (t : Tree) (root : Path) : Prop where
  self : t root = none ∨ t root = some .dir
  below : ∀ p, p ≠ [] → t (root ++ p) = none

section Vacant

variable {env : Env} {d : Direction} {fuel : Nat} {s s' : WalkState World}

theorem transferred_vacant (hsrc : TreeAt (env.source d s.sys).fs.get (env.sourceRoot d))
    (hvacant : Vacant (env.targetTree d s.sys) (env.targetRoot d))
    (hfull : (env.sourceScript d).FullReads) (hsure : (env.targetScript d).SureCloses)
    (h : env.traversal d fuel [slash] s = some (0, s')) (p : Path) :
    env.targetTree d s'.sys (env.targetRoot d ++ p) = env.sourceTree d s.sys p := by
  have htr := transferred_of_no_file hsrc hfull hsure h (by
    intro p _ c hc
    cases p with
    | nil =>
      rw [List.append_nil] at hc
      rcases hvacant.self with hroot | hroot <;> rw [hroot] at hc <;> cases hc
    | cons n p => rw [hvacant.below _ (List.cons_ne_nil n p)] at hc; cases hc)
  cases hsp : env.sourceTree d s.sys p with
  | some node =>
    cases node with
    | file c => exact (htr p).2 c hsp
    | dir => exact (htr p).1 hsp
  | none =>
    have hp : p ≠ [] := by
      rintro rfl
      rw [Env.sourceTree, List.append_nil, hsrc.dir] at hsp
      cases hsp
    rw [target_outside hsrc h (fun p' hpp => by rw [← List.append_cancel_left hpp]; exact hsp)]
    exact hvacant.below p hp

theorem treeAt_of_eq {t t' : Tree} {root root' : Path} (ht : TreeAt t root)
    (h : ∀ p, t' (root' ++ p) = t (root ++ p)) : TreeAt t' root' := by
  have hself := h []
  rw [List.append_nil, List.append_nil] at hself
  refine ⟨hself.trans ht.dir, fun p n hn => ?_⟩
  rw [List.append_assoc, h, ← List.append_assoc] at hn
  rw [h]
  exact ht.wf p n hn

end Vacant

theorem round_trip {env₁ env₂ : Env} {fuel₁ fuel₂ : Nat} {s₁ s₁' s₂ s₂' : WalkState World}
    (hsrc : TreeAt s₁.sys.native.fs.get env₁.nativeRoot)
    (hformat : Vacant s₁.sys.image.fs.get [])
    (hfull₁ : env₁.native.FullReads) (hsure₁ : env₁.image.SureCloses)
    (hcreate : env₁.traversal .create fuel₁ [slash] s₁ = some (0, s₁'))
    (himage : s₂.sys.image.fs = s₁'.sys.image.fs)
    (hvacant : Vacant s₂.sys.native.fs.get env₂.nativeRoot)
    (hfull₂ : env₂.image.FullReads) (hsure₂ : env₂.native.SureCloses)
    (hextract : env₂.traversal .extract fuel₂ [slash] s₂ = some (0, s₂')) (p : Path) :
    s₂'.sys.native.fs.get (env₂.nativeRoot ++ p) = s₁.sys.native.fs.get (env₁.nativeRoot ++ p) := by
  have hthere : ∀ p, s₁'.sys.image.fs.get ([] ++ p) = s₁.sys.native.fs.get (env₁.nativeRoot ++ p) :=
    transferred_vacant (d := .create) hsrc hformat hfull₁ hsure₁ hcreate
  have hmid : TreeAt s₂.sys.image.fs.get [] := by
    rw [himage]
    exact treeAt_of_eq hsrc hthere
  have hback : s₂'.sys.native.fs.get (env₂.nativeRoot ++ p) = s₂.sys.image.fs.get ([] ++ p) :=
    transferred_vacant (d := .extract) hmid hvacant hfull₂ hsure₂ hextract p
  rw [hback, himage, hthere]

/-- A file `a` and an empty directory `out` in `/out`, and a formatted image. -/
def sampleWorld : World where
  allocs := 0
  native := .idle [([], .dir), ([outName], .dir), ([outName, aName], .file [1, 2]),
    ([outName, outName], .dir)]
  image := .idle [([], .dir)]

/-- The image created from it, in a process of its own where `/out` is not there. -/
def sampleImage : World where
  allocs := 0
  native := .idle [([], .dir)]
  image := .idle (((calmEnv.traversal .create 8 [slash] (.start sampleWorld)).map
    (·.2.sys.image.fs)).getD [])

theorem round_trip_sample :
    ∃ s₂', calmEnv.traversal .extract 8 [slash] (.start sampleImage) = some (0, s₂') ∧
      ∀ p, s₂'.sys.native.fs.get (outName :: p) = sampleWorld.native.fs.get (outName :: p) := by
  obtain ⟨s₁', h₁⟩ := exists_state
    (o := calmEnv.traversal .create 8 [slash] (.start sampleWorld)) (r := 0) (by decide +kernel)
  obtain ⟨s₂', h₂⟩ := exists_state
    (o := calmEnv.traversal .extract 8 [slash] (.start sampleImage)) (r := 0) (by decide +kernel)
  refine ⟨s₂', h₂, fun p => round_trip (isTreeAt_spec (by decide)) ?_ Script.calm_fullReads
    Script.calm_sureCloses h₁ ?_ ?_ Script.calm_fullReads Script.calm_sureCloses h₂ p⟩
  · exact ⟨.inr rfl, fun p hp => if_neg hp⟩
  · rw [WalkState.start, sampleImage, h₁]; rfl
  · exact ⟨.inl rfl, fun p _ => if_neg (List.cons_ne_nil outName p)⟩

end LfsTool
