import Mathlib.Data.Finset.Basic
import Mathlib.Data.Multiset.AddSub

/-!
# LfsTool.Lib.Heap

A heap as the set of its live objects. Objects are numbered in the order they are allocated in, and
no number is used twice.

* `Heap σ`: the live objects, beside a world `σ`. `faulty` remembers that an object was freed that
  was not live.
* `Moved h takes drop h'`: between `h` and `h'` the objects `takes` were allocated and are live, `drop`
  was freed, and everything else that was allocated has been freed. The rules build it up call by call.
-/

namespace ObjectHeap

structure Heap (σ : Type) where
  sys : σ
  next : Nat
  live : Finset Nat
  fresh : ∀ p ∈ live, p < next
  faulty : Bool

namespace Heap

variable {σ : Type}

def objects (h : Heap σ) : Multiset Nat := h.live.val

def withSys (h : Heap σ) (sys : σ) : Heap σ := { h with sys := sys }

def take (h : Heap σ) : Heap σ where
  sys := h.sys
  next := h.next + 1
  live := insert h.next h.live
  fresh := by
    intro p hp
    rcases Finset.mem_insert.mp hp with rfl | hp
    · exact Nat.lt_succ_self _
    · exact Nat.lt_succ_of_lt (h.fresh p hp)
  faulty := h.faulty

def give (p : Nat) (h : Heap σ) : Heap σ where
  sys := h.sys
  next := h.next
  live := h.live.erase p
  fresh := fun q hq => h.fresh q (Finset.mem_of_mem_erase hq)
  faulty := h.faulty || !decide (p ∈ h.live)

theorem next_notMem (h : Heap σ) : h.next ∉ h.live := fun hmem => absurd (h.fresh _ hmem) (Nat.lt_irrefl _)

theorem objects_take (h : Heap σ) : h.take.objects = h.next ::ₘ h.objects :=
  Finset.insert_val_of_notMem h.next_notMem

theorem objects_give (p : Nat) (h : Heap σ) : (h.give p).objects = h.objects.erase p :=
  Finset.erase_val h.live p

theorem mem_objects {h : Heap σ} {p : Nat} : p ∈ h.objects ↔ p ∈ h.live := Iff.rfl

theorem live_eq_iff {σ' : Type} {h : Heap σ} {h' : Heap σ'} : h.live = h'.live ↔ h.objects = h'.objects :=
  Finset.val_inj.symm

theorem objects_nodup (h : Heap σ) : h.objects.Nodup := h.live.nodup

theorem faulty_give_of_mem {p : Nat} {h : Heap σ} (hp : p ∈ h.objects) : (h.give p).faulty = h.faulty := by
  have hmem : p ∈ h.live := hp
  simp [give, hmem]

end Heap

open Heap

section Moved

variable {σ : Type} {h h₁ : Heap σ} {takes : Multiset Nat} {drop : Option Nat}

def without (drop : Option Nat) (objects : Multiset Nat) : Multiset Nat :=
  drop.elim objects objects.erase

theorem without_add {drop : Option Nat} {objects rest : Multiset Nat}
    (h : ∀ p, drop = some p → p ∈ objects) :
    without drop (objects + rest) = without drop objects + rest := by
  cases drop with
  | none => rfl
  | some p => exact Multiset.erase_add_left_pos _ (h p rfl)

structure Moved (h : Heap σ) (takes : Multiset Nat) (drop : Option Nat) (h' : Heap σ) : Prop where
  next : h.next ≤ h'.next
  above : ∀ p ∈ takes, h.next ≤ p
  objects : h'.objects = takes + without drop h.objects
  faulty : h'.faulty = (h.faulty || drop.elim false fun p => !decide (p ∈ h.live))

theorem Moved.refl (h : Heap σ) : Moved h 0 none h :=
  ⟨Nat.le_refl _, fun _ hp => absurd hp (Multiset.notMem_zero _), (Multiset.zero_add _).symm,
    (Bool.or_false _).symm⟩

theorem Moved.withSys (m : Moved h takes drop h₁) (sys : σ) : Moved h takes drop (h₁.withSys sys) :=
  ⟨m.next, m.above, m.objects, m.faulty⟩

theorem Moved.take (m : Moved h takes drop h₁) : Moved h (h₁.next ::ₘ takes) drop h₁.take where
  next := Nat.le_succ_of_le m.next
  above := by
    intro p hp
    rcases Multiset.mem_cons.mp hp with rfl | hp
    · exact m.next
    · exact m.above p hp
  objects := by rw [objects_take, m.objects, Multiset.cons_add]
  faulty := m.faulty

/-- An object that was allocated on the way is freed. -/
theorem Moved.give_taken {p : Nat} (m : Moved h (p ::ₘ takes) drop h₁) :
    Moved h takes drop (h₁.give p) where
  next := m.next
  above := fun q hq => m.above q (Multiset.mem_cons_of_mem hq)
  objects := by rw [objects_give, m.objects, Multiset.cons_add, Multiset.erase_cons_head]
  faulty := by
    rw [faulty_give_of_mem (by rw [m.objects, Multiset.cons_add]; exact Multiset.mem_cons_self _ _)]
    exact m.faulty

/-- An object that was there before is freed. -/
theorem Moved.give (m : Moved h 0 none h₁) (p : Nat) : Moved h 0 (some p) (h₁.give p) := by
  have hobjects : h₁.objects = h.objects := m.objects.trans (Multiset.zero_add _)
  have hlive : h₁.live = h.live := live_eq_iff.mpr hobjects
  have hfaulty : h₁.faulty = h.faulty := m.faulty.trans (Bool.or_false _)
  refine ⟨m.next, m.above, ?_, ?_⟩
  · rw [objects_give, hobjects, Multiset.zero_add]
    rfl
  · have hgive : (h₁.give p).faulty = (h₁.faulty || !decide (p ∈ h₁.live)) := rfl
    rw [hgive, hfaulty, hlive]
    rfl

/-- Nothing is left of what was allocated, and nothing was freed. -/
theorem Moved.live_eq (m : Moved h 0 none h₁) : h₁.live = h.live :=
  live_eq_iff.mpr (m.objects.trans (Multiset.zero_add _))

theorem Moved.mem_iff (m : Moved h takes drop h₁) {p : Nat} (hp : p < h.next) (hdrop : drop ≠ some p) :
    p ∈ h₁.live ↔ p ∈ h.live := by
  have htakes : p ∉ takes := fun hmem => absurd (m.above p hmem) (Nat.not_le.mpr hp)
  rw [← mem_objects, m.objects, Multiset.mem_add, or_iff_right htakes]
  cases drop with
  | none => rfl
  | some q =>
    have hne : p ≠ q := fun heq => hdrop (congrArg some heq.symm)
    exact Multiset.mem_erase_of_ne hne

theorem Moved.dead (m : Moved h takes drop h₁) {p : Nat} (hp : p < h.next) (hdead : p ∉ h.objects) :
    p < h₁.next ∧ p ∉ h₁.objects := by
  refine ⟨Nat.lt_of_lt_of_le hp m.next, fun hmem => ?_⟩
  rw [m.objects] at hmem
  rcases Multiset.mem_add.mp hmem with htakes | hrest
  · exact absurd (m.above p htakes) (Nat.not_le.mpr hp)
  · cases drop with
    | none => exact hdead hrest
    | some q => exact hdead (Multiset.mem_of_mem_erase hrest)

/-- What is freed was live, or the heap is faulty from then on. -/
theorem Moved.faulty_of_mem (m : Moved h takes drop h₁) (hdrop : ∀ p, drop = some p → p ∈ h.objects) :
    h₁.faulty = h.faulty := by
  rw [m.faulty]
  cases drop with
  | none => exact Bool.or_false _
  | some p =>
    have hmem : p ∈ h.live := hdrop p rfl
    simp [hmem]

end Moved

end ObjectHeap
