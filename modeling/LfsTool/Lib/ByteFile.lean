import LfsTool.Lib.BlockArray

/-!
# ByteFile

A seekable byte array with a position. Every call takes the next item of a script: it succeeds, or
it fails after some of the bytes. A transfer of no bytes is no call.

* `Script.Fails`: some call between two points of a run fails.
* `seek_spec`, `read_spec`, `write_spec`, `flush_spec`: what a call does to the array, and that it
  falls short exactly if it fails.
-/

namespace ByteFile

open BlockArray

structure Stream where
  content : List UInt8
  pos : Nat
  /-- the number of calls made -/
  tick : Nat
  deriving DecidableEq

/-- For each call: it succeeds, or how many bytes are transferred before it fails. -/
abbrev Script := Nat → Option Nat

/-- One of the calls made between `s` and `s'` fails. -/
def Script.Fails (script : Script) (s s' : Stream) : Prop :=
  ∃ i, s.tick ≤ i ∧ i < s'.tick ∧ script i ≠ none

variable (script : Script)

def seek (s : Stream) (pos : Nat) : Bool × Stream :=
  match script s.tick with
  | none => (true, { s with pos := pos, tick := s.tick + 1 })
  | some _ => (false, { s with tick := s.tick + 1 })

/-- How many of `n` bytes, not 0, the next call transfers. -/
def transferred (s : Stream) (n : Nat) : Nat :=
  match script s.tick with
  | none => n
  | some m => min m (n - 1)

def read (s : Stream) (n : Nat) : List UInt8 × Stream :=
  if n = 0 then ([], s)
  else
    let bytes := (s.content.drop s.pos).take (transferred script s n)
    (bytes, { s with pos := s.pos + bytes.length, tick := s.tick + 1 })

/-- A gap between the end of the array and the position is filled with zeros. -/
def write (s : Stream) (data : List UInt8) : Nat × Stream :=
  if data = [] then (0, s)
  else
    let m := transferred script s data.length
    let content := s.content ++ List.replicate (s.pos - s.content.length) 0
    (m, ⟨overwrite content s.pos (data.take m), s.pos + m, s.tick + 1⟩)

/-- Writes one byte. -/
def put (s : Stream) (b : UInt8) : Bool × Stream :=
  let (n, s) := write script s [b]
  (n == 1, s)

def flush (s : Stream) : Bool × Stream :=
  ((script s.tick).isNone, { s with tick := s.tick + 1 })

/-! ## What the calls do -/

variable {script} {s s' : Stream}

theorem fails_step (h : s'.tick = s.tick + 1) : script.Fails s s' ↔ script s.tick ≠ none := by
  constructor
  · rintro ⟨i, hle, hlt, hi⟩
    have hi' : i = s.tick := by omega
    rwa [hi'] at hi
  · intro hi
    exact ⟨s.tick, Nat.le_refl _, by omega, hi⟩

theorem not_fails_of_tick (h : s'.tick = s.tick) : ¬script.Fails s s' := by
  rintro ⟨i, hle, hlt, _⟩
  omega

/-- A run fails where one of its two parts does. -/
theorem fails_trans {s₁ : Stream} (h : s.tick ≤ s₁.tick) (h' : s₁.tick ≤ s'.tick) :
    script.Fails s s' ↔ script.Fails s s₁ ∨ script.Fails s₁ s' := by
  constructor
  · rintro ⟨i, hle, hlt, hi⟩
    by_cases hi' : i < s₁.tick
    · exact .inl ⟨i, hle, hi', hi⟩
    · exact .inr ⟨i, by omega, hlt, hi⟩
  · rintro (⟨i, hle, hlt, hi⟩ | ⟨i, hle, hlt, hi⟩)
    · exact ⟨i, hle, by omega, hi⟩
    · exact ⟨i, by omega, hlt, hi⟩

theorem seek_spec {pos : Nat} {ok : Bool} (h : seek script s pos = (ok, s')) :
    s'.content = s.content ∧ s.tick ≤ s'.tick ∧
      (ok = true ∧ s'.pos = pos ∧ ¬script.Fails s s' ∨ ok = false ∧ script.Fails s s') := by
  simp only [seek] at h
  split at h <;> rename_i hi <;> cases h
  · exact ⟨rfl, Nat.le_succ _, .inl ⟨rfl, rfl, by rw [fails_step rfl, hi]; simp⟩⟩
  · exact ⟨rfl, Nat.le_succ _, .inr ⟨rfl, by rw [fails_step rfl, hi]; simp⟩⟩

theorem read_spec {n : Nat} {bytes : List UInt8} (hn : s.pos + n ≤ s.content.length)
    (h : read script s n = (bytes, s')) :
    s'.content = s.content ∧ s.tick ≤ s'.tick ∧ bytes.length ≤ n ∧
      (bytes = (s.content.drop s.pos).take n ∧ bytes.length = n ∧ ¬script.Fails s s' ∨
        bytes.length ≠ n ∧ script.Fails s s') := by
  simp only [read] at h
  split at h
  · rename_i hzero
    cases h
    refine ⟨rfl, Nat.le_refl _, Nat.zero_le _, .inl ⟨?_, hzero.symm, not_fails_of_tick rfl⟩⟩
    rw [hzero, List.take_zero]
  · rename_i hzero
    cases h
    have hlen : ((s.content.drop s.pos).take (transferred script s n)).length =
        min (transferred script s n) (s.content.length - s.pos) := by
      rw [List.length_take, List.length_drop]
    refine ⟨rfl, Nat.le_succ _, ?_⟩
    rw [fails_step rfl, hlen]
    cases hi : script s.tick with
    | none =>
      simp only [transferred, hi]
      exact ⟨by omega, .inl ⟨trivial, by omega, by simp⟩⟩
    | some m =>
      simp only [transferred, hi]
      exact ⟨by omega, .inr ⟨by omega, by simp⟩⟩

/-- The bytes stored are the first ones, and all of them unless the call fails. -/
theorem write_spec {data : List UInt8} {n : Nat} (hpos : s.pos ≤ s.content.length)
    (h : write script s data = (n, s')) :
    s'.content = overwrite s.content s.pos (data.take n) ∧ s'.pos = s.pos + n ∧
      s.tick ≤ s'.tick ∧
      (n = data.length ∧ ¬script.Fails s s' ∨ n < data.length ∧ script.Fails s s') := by
  simp only [write] at h
  split at h
  · rename_i hnil
    cases h
    refine ⟨?_, rfl, Nat.le_refl _, .inl ⟨by rw [hnil]; rfl, not_fails_of_tick rfl⟩⟩
    rw [List.take_zero, overwrite_nil]
  · rename_i hnil
    cases h
    have hlen : 0 < data.length := List.length_pos_iff.mpr hnil
    have hgap : s.content ++ List.replicate (s.pos - s.content.length) 0 = s.content := by
      rw [Nat.sub_eq_zero_of_le hpos, List.replicate_zero, List.append_nil]
    refine ⟨by rw [hgap], rfl, Nat.le_succ _, ?_⟩
    rw [fails_step rfl]
    cases hi : script s.tick with
    | none =>
      simp only [transferred, hi]
      exact .inl ⟨trivial, by simp⟩
    | some m =>
      simp only [transferred, hi]
      exact .inr ⟨by omega, by simp⟩

theorem flush_spec {ok : Bool} (h : flush script s = (ok, s')) :
    s'.content = s.content ∧ s.tick ≤ s'.tick ∧
      (ok = true ∧ ¬script.Fails s s' ∨ ok = false ∧ script.Fails s s') := by
  cases h
  refine ⟨rfl, Nat.le_succ _, ?_⟩
  rw [fails_step rfl]
  cases script s.tick <;> simp

end ByteFile
