import LfsTool.WalkRun
import LfsTool.Lib.TreeFs

/-!
# LfsTool.TreeWalk

What a back end is for: it shows the walk a tree file system. `TreeSource` and `TreeTarget` say what
the walk relies on in the two roles, in terms of the relations of `TreeFs`; which call fails, how
much a read or a write transfers and how a directory is listed is left open.

From these alone follows what any run of the walk does to the target tree (`WalkRun.tree`):

* `changes`: a target path is as it was, or it is a path of the source and is now a directory that
  was not there, or a file holding the start of the source file (`Allowed`);
* `done`: when the run returns 0, no read fell short and no close lost data, every file of the source
  is there whole, and so is every directory, except that at an empty directory of the source a file
  of the target may have stayed (`Done`).
-/

namespace LfsTool

open PathSyntax WalkState TreeFs

/-! ## Paths of the walk -/

/-- `path` is an absolute path string with the proper names `p`. -/
structure Names (path : CString) (p : Path) : Prop where
  absolute : isAbsolute path = true
  components : components path = p
  proper : ∀ n ∈ p, Proper n

theorem names_root : Names [slash] [] := ⟨rfl, rfl, by simp⟩

theorem Names.ne_nil {path : CString} {p : Path} (h : Names path p) : path ≠ [] := by
  rintro rfl
  cases h.absolute

theorem Names.join {path : CString} {p : Path} {n : Name} (h : Names path p) (hn : Proper n) :
    Names (joinPath path n) (p ++ [n]) where
  absolute := by rw [isAbsolute_joinPath h.ne_nil, h.absolute]
  components := by rw [components_joinPath, h.components, hn.components]
  proper := by
    intro m hm
    rcases List.mem_append.mp hm with hm | hm
    · exact h.proper m hm
    · rw [List.mem_singleton.mp hm]; exact hn

/-! ## Back ends that show a tree -/

section Spec

variable {σ φ δ : Type}

/-- How a back end shows a tree: the view of a state, where the root of the back end is in it, and
what its handles stand for. -/
structure TreeLens (σ φ δ : Type) where
  view : σ → View
  root : Path
  file : φ → Nat
  dir : δ → Nat
  /-- the handle was opened for this directory -/
  opened : δ → Path → Prop

structure Delivered (t : Tree) (p : Path) (n : Name) (slot : Dirent) : Prop where
  name : cstr slot.name = n
  type : (IsDots n ∧ slot.type = .dir) ∨
    (Proper n ∧ ((∃ c, t (p ++ [n]) = some (.file c)) ∧ slot.type = .file ∨
      t (p ++ [n]) = some .dir ∧ slot.type = .dir))

/-- What `readdir` returns for what the stream yields. -/
inductive ReaddirBack (t : Tree) (p : Path) : DirItem → Bool → Dirent → Prop where
  | error {slot : Dirent} : ReaddirBack t p .error false slot
  | finished {slot : Dirent} : slot.type = .endMark → ReaddirBack t p .finished true slot
  | item {n : Name} {slot : Dirent} : Delivered t p n slot → ReaddirBack t p (.item n) true slot

/-- A back end the walk reads from. Its calls leave `other` alone. With `full`, reads fall short
only at the end of the file. -/
structure TreeSource (full : Prop) (v : Vfs σ φ δ) (L : TreeLens σ φ δ) (other : σ → View) :
    Prop where
  open_ : ∀ {path p w r w'}, Names path p → v.open_ path O_RDONLY w = (r, w') →
    OpenRead (L.view w) (L.root ++ p) (r.map L.file) (L.view w') ∧ other w' = other w
  read : ∀ {h buf n w rb buf' w'}, v.read (some h) buf n w = ((rb, buf'), w') →
    (∃ o, Read full (L.view w) (L.file h) n o (L.view w') ∧ ReadBack buf o rb buf') ∧
      other w' = other w
  close : ∀ {h w err w'}, v.close (some h) w = (err, w') →
    (∃ durable, Close durable (L.view w) (L.file h) (err = 0) (L.view w')) ∧ other w' = other w
  opendir : ∀ {path p w r w'}, Names path p → v.opendir path w = (r, w') →
    OpenDir (L.view w) (L.root ++ p) (r.map L.dir) (L.view w') ∧
      (∀ h, r = some h → L.opened h p) ∧ other w' = other w
  readdir : ∀ {h p rest slot w found slot' w'}, L.opened h p → (∀ n ∈ p, Proper n) →
    (L.view w).dir (L.dir h) = some ⟨L.root ++ p, rest⟩ → (∀ n ∈ rest, IsDots n ∨ Proper n) →
    v.readdir (some h) slot w = ((found, slot'), w') →
    (∃ o, ReadDir (L.view w) (L.dir h) o (L.view w') ∧
      ReaddirBack (L.view w).tree (L.root ++ p) o found slot') ∧ other w' = other w
  closedir : ∀ {h w err w'}, v.closedir (some h) w = (err, w') →
    CloseDir (L.view w) (L.dir h) (L.view w') ∧ other w' = other w

/-- A back end the walk writes to. With `durable`, no close loses data. -/
structure TreeTarget (durable : Prop) (v : Vfs σ φ δ) (L : TreeLens σ φ δ) (other : σ → View) :
    Prop where
  mkdir : ∀ {path p w err w'}, Names path p → v.mkdir path w = (err, w') →
    MakeDir (L.view w) (L.root ++ p) (err = 0) (L.view w') ∧ other w' = other w
  open_ : ∀ {path p w r w'}, Names path p →
    v.open_ path (O_CREAT ||| O_TRUNC ||| O_WRONLY) w = (r, w') →
    OpenWrite (L.view w) (L.root ++ p) (r.map L.file) (L.view w') ∧ other w' = other w
  write : ∀ {h buf n w wb w'}, v.write (some h) buf n w = (wb, w') →
    (∃ o, Write (L.view w) (L.file h) (buf.take n) o (L.view w') ∧ WriteBack o wb) ∧
      other w' = other w
  close : ∀ {h w err w'}, v.close (some h) w = (err, w') →
    Close durable (L.view w) (L.file h) (err = 0) (L.view w') ∧ other w' = other w

end Spec

/-- A source and a target that show trees of their own. -/
structure TreeEnv {σ φ δ φ' δ' : Type} (full durable : Prop) (libc : Libc σ) (vfs : Vfs σ φ δ)
    (target : Vfs σ φ' δ') (S : TreeLens σ φ δ) (T : TreeLens σ φ' δ') : Prop where
  source : TreeSource full vfs S T.view
  target : TreeTarget durable target T S.view
  source_libc : LibcKeeps libc S.view
  target_libc : LibcKeeps libc T.view

/-! ## What the walk does to the target -/

/-- What may have become of a target path that the source has as the first argument: from the second
to the third. -/
inductive Allowed : Option Node → Option Node → Option Node → Prop where
  | same {src a : Option Node} : Allowed src a a
  | newDir : Allowed (some .dir) none (some .dir)
  | start {c : List UInt8} {a : Option Node} (k : Nat) :
      Allowed (some (.file c)) a (some (.file (c.take k)))

theorem Allowed.trans {src a b c : Option Node} (h₁ : Allowed src a b) (h₂ : Allowed src b c) :
    Allowed src a c := by
  cases h₂ with
  | same => exact h₁
  | newDir => cases h₁; exact .newDir
  | start k => exact .start k

theorem Allowed.of_none {a b : Option Node} (h : Allowed none a b) : b = a := by
  cases h
  rfl

theorem Allowed.of_dir {a b : Option Node} (h : Allowed (some .dir) a b) :
    b = a ∨ a = none ∧ b = some .dir := by
  cases h with
  | same => exact .inl rfl
  | newDir => exact .inr ⟨rfl, rfl⟩

theorem Allowed.of_file {c : List UInt8} {a b : Option Node} (h : Allowed (some (.file c)) a b) :
    b = a ∨ ∃ c', b = some (.file c') ∧ c' <+: c := by
  cases h with
  | same => exact .inl rfl
  | start k => exact .inr ⟨_, rfl, List.take_prefix k c⟩

/-- At paths below the root that are in `scope` the target changed as allowed, elsewhere not. -/
def Changes (src : Tree) (rs rt : Path) (scope : Path → Prop) (t t' : Tree) : Prop :=
  ∀ q, t' q = t q ∨ ∃ p, q = rt ++ p ∧ scope p ∧ Allowed (src (rs ++ p)) (t q) (t' q)

/-- In `scope`, the target has what the source has, save that where the source has a directory
without entries it only has something. -/
def Done (src : Tree) (rs rt : Path) (scope : Path → Prop) (t : Tree) : Prop :=
  ∀ p, scope p →
    (∀ c, src (rs ++ p) = some (.file c) → t (rt ++ p) = some (.file c)) ∧
    (src (rs ++ p) = some .dir → t (rt ++ p) ≠ none ∧
      ((∃ n, ¬IsDots n ∧ src (rs ++ p ++ [n]) ≠ none) → t (rt ++ p) = some .dir))

theorem Changes.refl {src : Tree} {rs rt : Path} {scope : Path → Prop} {t : Tree} :
    Changes src rs rt scope t t := fun _ => .inl rfl

theorem Changes.trans {src : Tree} {rs rt : Path} {scope : Path → Prop} {t t' t'' : Tree}
    (h₁ : Changes src rs rt scope t t') (h₂ : Changes src rs rt scope t' t'') :
    Changes src rs rt scope t t'' := by
  intro q
  rcases h₂ q with h₂ | ⟨p, rfl, hp, h₂⟩
  · rw [h₂]; exact h₁ q
  · rcases h₁ (rt ++ p) with h₁ | ⟨p', hpp, _, h₁⟩
    · rw [h₁] at h₂; exact .inr ⟨p, rfl, hp, h₂⟩
    · rw [← List.append_cancel_left hpp] at h₁
      exact .inr ⟨p, rfl, hp, h₁.trans h₂⟩

theorem Changes.mono {src : Tree} {rs rt : Path} {scope scope' : Path → Prop} {t t' : Tree}
    (h : Changes src rs rt scope t t') (hs : ∀ p, scope p → scope' p) :
    Changes src rs rt scope' t t' := by
  intro q
  rcases h q with h | ⟨p, hq, hp, h⟩
  · exact .inl h
  · exact .inr ⟨p, hq, hs p hp, h⟩

theorem Changes.start {src : Tree} {rs rt p : Path} {c : List UInt8} {k : Nat} {t t' : Tree}
    (hc : src (rs ++ p) = some (.file c)) (hcontent : t' (rt ++ p) = some (.file (c.take k)))
    (hframe : ∀ q, q ≠ rt ++ p → t' q = t q) : Changes src rs rt (· = p) t t' := by
  intro q
  by_cases hq : q = rt ++ p
  · subst hq
    rw [hcontent]
    exact .inr ⟨p, rfl, rfl, by rw [hc]; exact .start k⟩
  · exact .inl (hframe q hq)

theorem Changes.outside {src : Tree} {rs rt : Path} {scope : Path → Prop} {t t' : Tree}
    (h : Changes src rs rt scope t t') {p : Path} (hp : ¬scope p) : t' (rt ++ p) = t (rt ++ p) := by
  rcases h (rt ++ p) with h | ⟨p', hpp, hs, _⟩
  · exact h
  · exact absurd (List.append_cancel_left hpp ▸ hs) hp

theorem Done.keep {src : Tree} {rs rt : Path} {scope scope' : Path → Prop} {t t' : Tree}
    (h : Done src rs rt scope t) (hc : Changes src rs rt scope' t t')
    (hs : ∀ p, scope p → ¬scope' p) : Done src rs rt scope t' := by
  intro p hp
  rw [hc.outside (hs p hp)]
  exact h p hp

theorem Done.or {src : Tree} {rs rt : Path} {scope scope' : Path → Prop} {t : Tree}
    (h : Done src rs rt scope t) (h' : Done src rs rt scope' t) :
    Done src rs rt (fun p => scope p ∨ scope' p) t :=
  fun p hp => hp.elim (h p) (h' p)

theorem Done.mono {src : Tree} {rs rt : Path} {scope scope' : Path → Prop} {t : Tree}
    (h : Done src rs rt scope t) (hs : ∀ p, scope' p → scope p) : Done src rs rt scope' t :=
  fun p hp => h p (hs p hp)

end LfsTool
