import Mathlib.Data.List.Basic

/-!
# LfsTool.Lib.CStrings

Strings with a terminator in arrays of bytes, and the functions of `string.h` that copy them. A read
or a write outside an array has no result.

* `Holds a s`: the array `a` starts with the string `s` and its terminator.
* `Holds.strcpy`, `Holds.strcat`: a copy into an array that is long enough stays inside it.
-/

namespace CStrings

/-- The array starts with the bytes of `s`, none of them 0, and a terminator. -/
structure Holds (a s : List UInt8) : Prop where
  starts : ∃ rest, a = s ++ 0 :: rest
  no_nul : (0 : UInt8) ∉ s

def strlen : List UInt8 → Option Nat
  | [] => none
  | c :: a => if c = 0 then some 0 else (strlen a).map (· + 1)

/-- Writes `bytes` from `pos` on. -/
def store (a : List UInt8) (pos : Nat) (bytes : List UInt8) : Option (List UInt8) :=
  if pos + bytes.length ≤ a.length then
    some (a.take pos ++ bytes ++ a.drop (pos + bytes.length))
  else none

def strcpy (dst src : List UInt8) : Option (List UInt8) :=
  match strlen src with
  | none => none
  | some n => store dst 0 (src.take (n + 1))

def strcat (dst src : List UInt8) : Option (List UInt8) :=
  match strlen dst, strlen src with
  | some d, some n => store dst d (src.take (n + 1))
  | _, _ => none

variable {a dst src s t : List UInt8}

theorem holds_append_nul (h : (0 : UInt8) ∉ s) : Holds (s ++ [0]) s := ⟨⟨[], rfl⟩, h⟩

theorem strlen_append_nul (h : (0 : UInt8) ∉ s) (rest : List UInt8) :
    strlen (s ++ 0 :: rest) = some s.length := by
  induction s with
  | nil => rfl
  | cons c s ih =>
    rw [List.mem_cons, not_or] at h
    rw [List.cons_append, strlen, if_neg (Ne.symm h.1), ih h.2]
    rfl

theorem Holds.strlen (h : Holds a s) : strlen a = some s.length := by
  obtain ⟨rest, rfl⟩ := h.starts
  exact strlen_append_nul h.no_nul rest

/-- The string with its terminator. -/
theorem Holds.take (h : Holds a s) : a.take (s.length + 1) = s ++ [0] := by
  obtain ⟨rest, rfl⟩ := h.starts
  have happ : s ++ 0 :: rest = (s ++ [0]) ++ rest := by rw [List.append_assoc]; rfl
  have hlen : s.length + 1 = (s ++ [0]).length := by rw [List.length_append]; rfl
  rw [happ, hlen, List.take_left]

theorem store_eq {pos : Nat} {bytes : List UInt8} (h : pos + bytes.length ≤ a.length) :
    store a pos bytes = some (a.take pos ++ bytes ++ a.drop (pos + bytes.length)) :=
  if_pos h

theorem length_store {pos : Nat} {bytes a' : List UInt8} (h : store a pos bytes = some a') :
    a'.length = a.length := by
  unfold store at h
  split at h
  · cases h
    simp only [List.length_append, List.length_take, List.length_drop]
    omega
  · cases h

/-- A string written behind one that is there, over its terminator. -/
theorem Holds.store (h : Holds a s) (ht : (0 : UInt8) ∉ t)
    (hlen : s.length + t.length + 1 ≤ a.length) :
    ∃ a', CStrings.store a s.length (t ++ [0]) = some a' ∧ Holds a' (s ++ t) := by
  have hfits : s.length + (t ++ [0]).length ≤ a.length := by
    rw [List.length_append, List.length_singleton]
    omega
  refine ⟨_, store_eq hfits, ⟨a.drop (s.length + (t ++ [0]).length), ?_⟩, ?_⟩
  · obtain ⟨rest, rfl⟩ := h.starts
    rw [List.take_left]
    simp only [List.append_assoc, List.singleton_append]
  · rw [List.mem_append, not_or]
    exact ⟨h.no_nul, ht⟩

/-- `strcpy` into an array with room for the string and the terminator. -/
theorem Holds.strcpy (h : Holds src s) (hlen : s.length + 1 ≤ dst.length) :
    ∃ dst', strcpy dst src = some dst' ∧ Holds dst' s ∧ dst'.length = dst.length := by
  have hfits : 0 + (s ++ [0]).length ≤ dst.length := by
    rw [List.length_append, List.length_singleton]
    omega
  have hstore := store_eq (a := dst) hfits
  refine ⟨_, ?_, ⟨⟨dst.drop (0 + (s ++ [0]).length), ?_⟩, h.no_nul⟩, length_store hstore⟩
  · simp only [CStrings.strcpy, h.strlen, h.take]
    exact hstore
  · simp only [List.take_zero, List.nil_append, List.append_assoc, List.singleton_append]

/-- `strcat` in an array with room for both strings and the terminator. -/
theorem Holds.strcat (hd : Holds dst s) (h : Holds src t)
    (hlen : s.length + t.length + 1 ≤ dst.length) :
    ∃ dst', strcat dst src = some dst' ∧ Holds dst' (s ++ t) ∧ dst'.length = dst.length := by
  obtain ⟨dst', hstore, hholds⟩ := hd.store h.no_nul hlen
  refine ⟨dst', ?_, hholds, length_store hstore⟩
  simp only [CStrings.strcat, hd.strlen, h.strlen, h.take]
  exact hstore

end CStrings
