import LfsTool.Logged
import LfsTool.Lib.Replay

/-!
# LfsTool.Calls

The sequence of calls of a walk, with their arguments and what they return.

* `Vfs.traced`: a back end that records each of its calls. `traversalTrace` are the calls of
  `traversal`.
* `TracedRun step a b s s'`: the calls between two states of the walk, read by `step`, lead from `a`
  to `b`. A property of all traces is a `step` and an induction over the runs with these rules.
-/

namespace LfsTool

open WalkState

/-- What a `readdir` delivers: the string in `name`, and `type`. -/
structure Entry where
  name : CString
  type : DirentType
  deriving DecidableEq

def Dirent.entry (d : Dirent) : Entry := ⟨cstr d.name, d.type⟩

/-- A call through a `struct vfs`, and the result. -/
inductive VfsCall (φ δ : Type) where
  | open_ (path : CString) (flags : Nat) (fd : Option φ)
  | close (fd : Option φ) (err : Int)
  | read (fd : Option φ) (count : Nat) (rb : Int)
  | write (fd : Option φ) (data : List UInt8) (count : Nat) (wb : Int)
  | opendir (path : CString) (dir : Option δ)
  | closedir (dir : Option δ) (err : Int)
  | readdir (dir : Option δ) (entry : Option Entry)
  | mkdir (path : CString) (err : Int)

/-- A call of the walk. -/
inductive Call (φ δ φ' δ' : Type) where
  | source (c : VfsCall φ δ)
  | target (c : VfsCall φ' δ')

section Traced

variable {ε σ φ δ : Type}

def Vfs.traced (v : Vfs σ φ δ) (ev : VfsCall φ δ → ε) : Vfs (Logged ε σ) φ δ where
  open_ path flags w :=
    let r := v.open_ path flags w.sys
    w.call r (ev (.open_ path flags r.1))
  close fd w :=
    let r := v.close fd w.sys
    w.call r (ev (.close fd r.1))
  read fd buf n w :=
    let r := v.read fd buf n w.sys
    w.call r (ev (.read fd n r.1.1))
  write fd buf n w :=
    let r := v.write fd buf n w.sys
    w.call r (ev (.write fd (buf.take n) n r.1))
  opendir path w :=
    let r := v.opendir path w.sys
    w.call r (ev (.opendir path r.1))
  closedir dir w :=
    let r := v.closedir dir w.sys
    w.call r (ev (.closedir dir r.1))
  readdir dir slot w :=
    let r := v.readdir dir slot w.sys
    w.call r (ev (.readdir dir (if r.1.1 then some r.1.2.entry else none)))
  mkdir path w :=
    let r := v.mkdir path w.sys
    w.call r (ev (.mkdir path r.1))

theorem Vfs.traced_hom (v : Vfs σ φ δ) (ev : VfsCall φ δ → ε) : VfsHom Logged.sys (v.traced ev) v :=
  ⟨fun _ _ _ => rfl, fun _ _ => rfl, fun _ _ _ _ => rfl, fun _ _ _ _ => rfl, fun _ _ => rfl,
    fun _ _ => rfl, fun _ _ _ => rfl, fun _ _ => rfl⟩

end Traced

section Trace

variable {σ φ δ φ' δ' : Type}

/-- The calls `traversal` makes, those of nested calls included. -/
def traversalTrace (libc : Libc σ) (vfs : Vfs σ φ δ) (target : Vfs σ φ' δ') (fuel : Nat)
    (dir : CString) (s : WalkState σ) : Option (List (Call φ δ φ' δ')) :=
  (traversal libc.lift (vfs.traced .source) (target.traced .target) fuel dir s.unrecorded).map
    (·.2.sys.log)

end Trace

/-! ## Reading the calls of a run -/

section Read

variable {ε S σ φ δ : Type} {step : S → ε → S → Prop}

def TracedRun (step : S → ε → S → Prop) (a b : S) (s s' : WalkState (Logged ε σ)) : Prop :=
  ∃ es, s'.sys.log = s.sys.log ++ es ∧ Replay.Run step a es b

variable {a b c : S} {s s₁ s₂ : WalkState (Logged ε σ)} {e : ε}

theorem TracedRun.silent (h : s₁.sys.log = s.sys.log) : TracedRun step a a s s₁ :=
  ⟨[], by rw [h, List.append_nil], .nil⟩

theorem TracedRun.call (h : s₁.sys.log = s.sys.log ++ [e]) (he : step a e b) :
    TracedRun step a b s s₁ :=
  ⟨[e], h, .single he⟩

theorem TracedRun.trans (h : TracedRun step a b s s₁) (h' : TracedRun step b c s₁ s₂) :
    TracedRun step a c s s₂ := by
  obtain ⟨es, hlog, hrun⟩ := h
  obtain ⟨es', hlog', hrun'⟩ := h'
  exact ⟨es ++ es', by rw [hlog', hlog, List.append_assoc], hrun.append hrun'⟩

theorem TracedRun.same (h : TracedRun step a b s s₁) (h' : s₂.sys.log = s₁.sys.log) :
    TracedRun step a b s s₂ :=
  h.trans (.silent h')

variable {vfs : Vfs σ φ δ} {ev : VfsCall φ δ → ε}

theorem openFile_traced {path : CString} {flags : Nat} {fd : Option φ}
    (h : s.openFile (vfs.traced ev) path flags = (fd, s₁)) :
    s₁.sys.log = s.sys.log ++ [ev (.open_ path flags fd)] := by
  cases h; rfl

theorem closeFile_traced (vfs : Vfs σ φ δ) (ev : VfsCall φ δ → ε) (fd : Option φ)
    (s : WalkState (Logged ε σ)) :
    ∃ err, (s.closeFile (vfs.traced ev) fd).2.sys.log = s.sys.log ++ [ev (.close fd err)] :=
  ⟨_, rfl⟩

theorem readBuffer_traced {fd : Option φ} {rb : Int}
    (h : s.readBuffer (vfs.traced ev) fd = (rb, s₁)) :
    s₁.sys.log = s.sys.log ++ [ev (.read fd bufferSize rb)] := by
  cases h; rfl

theorem writeBuffer_traced {fd : Option φ} {rb wb : Int}
    (h : s.writeBuffer (vfs.traced ev) fd rb = (wb, s₁)) :
    s₁.sys.log = s.sys.log ++ [ev (.write fd (s.mBuffer.take rb.toNat) rb.toNat wb)] := by
  cases h; rfl

theorem openDir_traced {path : CString} {dir : Option δ}
    (h : s.openDir (vfs.traced ev) path = (dir, s₁)) :
    s₁.sys.log = s.sys.log ++ [ev (.opendir path dir)] := by
  cases h; rfl

theorem closeDir_traced (vfs : Vfs σ φ δ) (ev : VfsCall φ δ → ε) (dir : Option δ)
    (s : WalkState (Logged ε σ)) :
    ∃ err, (s.closeDir (vfs.traced ev) dir).2.sys.log = s.sys.log ++ [ev (.closedir dir err)] :=
  ⟨_, rfl⟩

theorem readDir_traced {dir : Option δ} {found : Bool}
    (h : s.readDir (vfs.traced ev) dir = (found, s₁)) :
    s₁.sys.log = s.sys.log ++ [ev (.readdir dir (if found then some s₁.dirent.entry else none))] := by
  cases h; rfl

theorem makeDir_traced {path : CString} {err : Int}
    (h : s.makeDir (vfs.traced ev) path = (err, s₁)) :
    s₁.sys.log = s.sys.log ++ [ev (.mkdir path err)] := by
  cases h; rfl

end Read

end LfsTool
