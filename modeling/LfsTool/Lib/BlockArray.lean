import Mathlib.Data.List.GetD
import Mathlib.Algebra.Order.Ring.Nat

/-!
# BlockArray

A flat list as an array of `n` independent blocks of `m` items each.

* `overwrite l i data`: `data` in place of what stood from index `i` on.
* `Flat n m dev l`: item `o` of block `b` of the device `dev` is at index `b * m + o` of `l`.
* `Flat.read`, `Flat.prog`, `Flat.erase`: an access to a range of one block of the device is an
  access to a range of the list.
-/

namespace BlockArray

variable {α : Type}

/-! ## Indices -/

theorem index_lt {n m b o : Nat} (hb : b < n) (ho : o < m) : b * m + o < n * m := by
  have hle : (b + 1) * m ≤ n * m := Nat.mul_le_mul_right m hb
  rw [Nat.succ_mul] at hle
  omega

theorem index_le {n m b o : Nat} (hb : b < n) (ho : o ≤ m) : b * m + o ≤ n * m := by
  have hle : (b + 1) * m ≤ n * m := Nat.mul_le_mul_right m hb
  rw [Nat.succ_mul] at hle
  omega

/-- Two places are at one index only if they are one place. -/
theorem index_inj {m b o b' o' : Nat} (ho : o < m) (ho' : o' < m) :
    b * m + o = b' * m + o' ↔ b = b' ∧ o = o' := by
  constructor
  · intro h
    have hb : b = b' := by
      have hdiv := congrArg (· / m) h
      have hm : 0 < m := by omega
      simpa [Nat.mul_add_div hm, Nat.mul_comm _ m, Nat.div_eq_of_lt ho, Nat.div_eq_of_lt ho']
        using hdiv
    subst hb
    exact ⟨rfl, by omega⟩
  · rintro ⟨rfl, rfl⟩
    rfl

/-- A place is in a range of a block exactly if its index is in the range of indices. -/
theorem mem_range_iff {m b o b' o' k : Nat} (ho' : o' < m) (hk : o + k ≤ m) :
    b * m + o ≤ b' * m + o' ∧ b' * m + o' < b * m + o + k ↔ b' = b ∧ o ≤ o' ∧ o' < o + k := by
  constructor
  · rintro ⟨hle, hlt⟩
    have hb : b' = b := by
      rcases Nat.lt_trichotomy b' b with h | h | h
      · have := index_lt h ho'
        omega
      · exact h
      · have := index_le h hk
        omega
    subst hb
    exact ⟨rfl, by omega, by omega⟩
  · rintro ⟨rfl, hle, hlt⟩
    exact ⟨by omega, by omega⟩

/-! ## Lists -/

def overwrite (l : List α) (i : Nat) (data : List α) : List α :=
  l.take i ++ data ++ l.drop (i + data.length)

@[simp] theorem overwrite_nil (l : List α) (i : Nat) : overwrite l i [] = l := by
  rw [overwrite, List.append_nil, List.length_nil, Nat.add_zero, List.take_append_drop]

theorem overwrite_length {l : List α} {i : Nat} {data : List α} (h : i + data.length ≤ l.length) :
    (overwrite l i data).length = l.length := by
  rw [overwrite, List.length_append, List.length_append, List.length_take, List.length_drop]
  omega

theorem overwrite_getElem? {l : List α} {i : Nat} (data : List α) (h : i ≤ l.length) (j : Nat) :
    (overwrite l i data)[j]? =
      if i ≤ j ∧ j < i + data.length then data[j - i]? else l[j]? := by
  have hlen : (l.take i).length = i := by rw [List.length_take]; omega
  rw [overwrite, List.append_assoc]
  by_cases hj : j < i
  · rw [List.getElem?_append_left (by omega), if_neg (by omega), List.getElem?_take, if_pos hj]
  · rw [List.getElem?_append_right (by omega), hlen]
    by_cases hj' : j < i + data.length
    · rw [List.getElem?_append_left (by omega), if_pos (by omega)]
    · rw [List.getElem?_append_right (by omega), if_neg (by omega), List.getElem?_drop]
      congr 1
      omega

/-- Two pieces written one after the other are one piece. -/
theorem overwrite_overwrite {l : List α} {i : Nat} (data data' : List α) (h : i ≤ l.length) :
    overwrite (overwrite l i data) (i + data.length) data' = overwrite l i (data ++ data') := by
  have hlen : (l.take i ++ data).length = i + data.length := by
    rw [List.length_append, List.length_take]; omega
  simp only [overwrite]
  rw [List.take_append_of_le_length (by omega), ← hlen, List.take_length, List.drop_append, hlen,
    List.length_append, List.drop_drop, List.drop_eq_nil_of_le (by omega)]
  simp only [List.append_assoc, List.nil_append]
  congr 4
  omega

/-! ## Devices -/

abbrev Device (α : Type) := Nat → Nat → α

namespace Device

def read (dev : Device α) (b o k : Nat) : List α := (List.range k).map fun i => dev b (o + i)

def prog (dev : Device α) (b o : Nat) (data : List α) : Device α := fun b' o' =>
  if b' = b ∧ o ≤ o' ∧ o' < o + data.length then (data[o' - o]?).getD (dev b' o') else dev b' o'

def erase (dev : Device α) (b : Nat) (a : α) : Device α := fun b' o' =>
  if b' = b then a else dev b' o'

@[simp] theorem read_length (dev : Device α) (b o k : Nat) : (dev.read b o k).length = k := by
  rw [read, List.length_map, List.length_range]

theorem read_getElem? (dev : Device α) {b o k i : Nat} (hi : i < k) :
    (dev.read b o k)[i]? = some (dev b (o + i)) := by
  rw [read, List.getElem?_map, List.getElem?_range hi, Option.map_some]

theorem read_congr {dev dev' : Device α} {b o k : Nat} (h : ∀ i < k, dev b (o + i) = dev' b (o + i)) :
    dev.read b o k = dev'.read b o k :=
  List.map_congr_left fun i hi => h i (List.mem_range.mp hi)

theorem read_add (dev : Device α) (b o k l : Nat) :
    dev.read b o (k + l) = dev.read b o k ++ dev.read b (o + k) l := by
  rw [read, List.range_add, List.map_append, List.map_map]
  simp only [read, Function.comp_def, Nat.add_assoc]

theorem read_drop (dev : Device α) {b o k i : Nat} (hi : i ≤ k) :
    (dev.read b o k).drop i = dev.read b (o + i) (k - i) := by
  obtain ⟨l, rfl⟩ := Nat.exists_eq_add_of_le hi
  rw [read_add, List.drop_left' (read_length _ _ _ _), Nat.add_sub_cancel_left]

theorem read_take (dev : Device α) {b o k i : Nat} (hi : i ≤ k) :
    (dev.read b o k).take i = dev.read b o i := by
  obtain ⟨l, rfl⟩ := Nat.exists_eq_add_of_le hi
  rw [read_add, List.take_left' (read_length _ _ _ _)]

theorem prog_inside (dev : Device α) {b o o' : Nat} {data : List α} (h : o ≤ o')
    (h' : o' - o < data.length) : dev.prog b o data b o' = data[o' - o] := by
  rw [prog, if_pos ⟨rfl, h, by omega⟩, List.getElem?_eq_getElem h', Option.getD_some]

theorem prog_outside (dev : Device α) {b o b' o' : Nat} {data : List α}
    (h : b' ≠ b ∨ o' < o ∨ o + data.length ≤ o') : dev.prog b o data b' o' = dev b' o' := by
  rw [prog, if_neg]
  rintro ⟨hb, hle, hlt⟩
  rcases h with h | h | h
  · exact h hb
  · omega
  · omega

@[simp] theorem prog_nil (dev : Device α) (b o : Nat) : dev.prog b o [] = dev := by
  funext b' o'
  exact dev.prog_outside (by rw [List.length_nil]; omega)

/-- Two pieces one after the other are one piece. -/
theorem prog_prog (dev : Device α) (b o : Nat) (data data' : List α) :
    (dev.prog b o data).prog b (o + data.length) data' = dev.prog b o (data ++ data') := by
  funext b' o'
  by_cases hb : b' = b
  · subst hb
    by_cases h₁ : o ≤ o' ∧ o' < o + data.length
    · rw [prog_outside _ (by omega), prog_inside _ h₁.1 (by omega),
        prog_inside _ h₁.1 (by rw [List.length_append]; omega), List.getElem_append_left]
    · by_cases h₂ : o + data.length ≤ o' ∧ o' < o + data.length + data'.length
      · rw [prog_inside _ h₂.1 (by omega), prog_inside _ (by omega) (by rw [List.length_append]; omega),
          List.getElem_append_right (by omega)]
        congr 1
        omega
      · rw [prog_outside _ (by omega), prog_outside _ (by omega),
          prog_outside _ (by rw [List.length_append]; omega)]
  · rw [prog_outside _ (.inl hb), prog_outside _ (.inl hb), prog_outside _ (.inl hb)]

/-- What was programmed is what is read. -/
theorem read_prog (dev : Device α) (b o : Nat) {data : List α} {i k : Nat} (h : i + k ≤ data.length) :
    (dev.prog b o data).read b (o + i) k = (data.drop i).take k := by
  apply List.ext_getElem?
  intro j
  by_cases hj : j < k
  · rw [read_getElem? _ hj, prog_inside _ (by omega) (by omega), List.getElem?_take, if_pos hj,
      List.getElem?_drop, List.getElem?_eq_getElem (by omega)]
    congr 2
    omega
  · rw [List.getElem?_eq_none (by rw [read_length]; omega), List.getElem?_eq_none]
    rw [List.length_take]
    omega

end Device

structure Flat (n m : Nat) (dev : Device α) (l : List α) : Prop where
  length : l.length = n * m
  item : ∀ b < n, ∀ o < m, l[b * m + o]? = some (dev b o)

/-- Every list of the right length is the list of some device. -/
theorem exists_flat [Inhabited α] {n m : Nat} {l : List α} (h : l.length = n * m) :
    ∃ dev, Flat n m dev l := by
  refine ⟨fun b o => l.getD (b * m + o) default, h, fun b hb o ho => ?_⟩
  rw [List.getD_eq_getElem?_getD, List.getElem?_eq_getElem (by rw [h]; exact index_lt hb ho)]
  rfl

theorem Flat.replicate (n m : Nat) (a : α) : Flat n m (fun _ _ => a) (List.replicate (n * m) a) where
  length := List.length_replicate
  item b hb o ho := by rw [List.getElem?_replicate, if_pos (index_lt hb ho)]

section Access

variable {n m : Nat} {dev : Device α} {l : List α} {b o : Nat}

theorem Flat.read (h : Flat n m dev l) {k : Nat} (hb : b < n) (hk : o + k ≤ m) :
    (l.drop (b * m + o)).take k = dev.read b o k := by
  apply List.ext_getElem?
  intro i
  rw [List.getElem?_take, Device.read, List.getElem?_map]
  by_cases hi : i < k
  · rw [if_pos hi, List.getElem?_drop, List.getElem?_range hi, Option.map_some, Nat.add_assoc]
    exact h.item b hb (o + i) (by omega)
  · rw [if_neg hi, List.getElem?_eq_none (by simp; omega), Option.map_none]

theorem Flat.prog (h : Flat n m dev l) {data : List α} (hb : b < n) (hk : o + data.length ≤ m) :
    Flat n m (dev.prog b o data) (overwrite l (b * m + o) data) := by
  have hle : b * m + o + data.length ≤ l.length := by
    rw [h.length, Nat.add_assoc]
    exact index_le hb hk
  refine ⟨(overwrite_length hle).trans h.length, fun b' hb' o' ho' => ?_⟩
  rw [overwrite_getElem? _ (by omega), Device.prog]
  simp only [mem_range_iff ho' hk]
  by_cases hin : b' = b ∧ o ≤ o' ∧ o' < o + data.length
  · rw [if_pos hin, if_pos hin, hin.1, Nat.add_sub_add_left,
      List.getElem?_eq_getElem (by omega), Option.getD_some]
  · rw [if_neg hin, if_neg hin]
    exact h.item b' hb' o' ho'

/-- Erasing a block is programming all of it. -/
theorem Flat.erase (h : Flat n m dev l) (a : α) (hb : b < n) :
    Flat n m (dev.erase b a) (overwrite l (b * m) (List.replicate m a)) := by
  have hprog : Flat n m (dev.prog b 0 (List.replicate m a))
      (overwrite l (b * m + 0) (List.replicate m a)) := h.prog hb (by simp)
  refine ⟨hprog.length, fun b' hb' o' ho' => ?_⟩
  have hitem := hprog.item b' hb' o' ho'
  rw [Nat.add_zero] at hitem
  rw [hitem, Device.prog, Device.erase]
  simp only [List.length_replicate, Nat.zero_le, Nat.zero_add, ho', and_true,
    List.getElem?_replicate, Nat.sub_zero, if_true, Option.getD_some]

end Access

end BlockArray
