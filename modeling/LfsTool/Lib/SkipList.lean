import LfsTool.Lib.BitCount

/-!
# SkipList

A list that grows at its head and is read from there: node `i` points back to the nodes `i - 2 ^ k`,
for every `k` up to the number of zeros `i` ends in.

* `start`, `header`: the data of equal blocks with their pointers in front, as one file.
  `start_closed` is the position of a block without a sum.
* `Linked ptr addr n`: nodes `0` to `n - 1` are at `addr` and point where they should.
* `walk_spec`: going back to any node, in about twice as many hops as the index has bits.
* `trace_eq`: going through all nodes two pointers at a time visits each of them once.
* `heads_eq`: the pointers of a new head are found by following the old ones.
-/

namespace SkipList

open BitCount

/-! ## Layout -/

section Layout

variable {word block : Nat}

/-- The size of the pointers of a node. -/
def header (word : Nat) : Nat → Nat
  | 0 => 0
  | i + 1 => word * (trailing (i + 1) + 1)

/-- The position of the first byte of data of a node. -/
def start (word block : Nat) : Nat → Nat
  | 0 => 0
  | i + 1 => start word block i + (block - header word i)

theorem start_succ {i : Nat} (h : header word i ≤ block) :
    start word block (i + 1) + header word i = start word block i + block := by
  rw [start]
  omega

theorem start_closed {i : Nat} (h : ∀ j ≤ i, header word j ≤ block) :
    start word block (i + 1) + 2 * word * i = block * (i + 1) + word * popcount i := by
  induction i with
  | zero => simp [start, header]
  | succ i ih =>
    have hprev := ih (fun j hj => h j (Nat.le_succ_of_le hj))
    have hsucc := start_succ (h (i + 1) (Nat.le_refl _))
    have hcarry := congrArg (word * ·) (popcount_succ i)
    simp only [header, Nat.mul_add, Nat.mul_one] at hsucc hcarry hprev ⊢
    omega

theorem start_mono {i j : Nat} (h : i ≤ j) : start word block i ≤ start word block j := by
  induction h with
  | refl => exact Nat.le_refl _
  | step _ ih =>
    rw [start]
    omega

/-- A position is in one node only. -/
theorem index_unique {i j pos : Nat} (hi : start word block i ≤ pos)
    (hi' : pos < start word block (i + 1)) (hj : start word block j ≤ pos)
    (hj' : pos < start word block (j + 1)) : i = j := by
  rcases Nat.lt_trichotomy i j with h | h | h
  · have : start word block (i + 1) ≤ start word block j := start_mono (Nat.succ_le_of_lt h)
    omega
  · exact h
  · have : start word block (j + 1) ≤ start word block i := start_mono (Nat.succ_le_of_lt h)
    omega

end Layout

/-! ## Pointers -/

section Pointers

variable {α : Type} {ptr : α → Nat → α} {addr : Nat → α} {n : Nat}

def Linked (ptr : α → Nat → α) (addr : Nat → α) (n : Nat) : Prop :=
  ∀ i < n, i ≠ 0 → ∀ k ≤ trailing i, ptr (addr i) k = addr (i - 2 ^ k)

theorem Linked.mono {m : Nat} (h : Linked ptr addr n) (hm : m ≤ n) : Linked ptr addr m :=
  fun i hi => h i (Nat.lt_of_lt_of_le hi hm)

/-- The longest hop that is there and not too far. -/
def hop (target cur : Nat) : Nat := min (Nat.log2 (cur - target)) (trailing cur)

theorem two_pow_hop_le {target cur : Nat} (h : target < cur) : 2 ^ hop target cur ≤ cur - target :=
  Nat.le_trans (Nat.pow_le_pow_right (by decide) (Nat.min_le_left _ _))
    (Nat.log2_self_le (by omega))

/-- Back to `target`, in at most `fuel` hops. -/
def walk (ptr : α → Nat → α) (target : Nat) : Nat → Nat → α → Option α
  | fuel, cur, node =>
    if cur ≤ target then some node
    else
      match fuel with
      | 0 => none
      | fuel + 1 =>
        walk ptr target fuel (cur - 2 ^ hop target cur) (ptr node (hop target cur))

theorem popcount_sub_log2 {d : Nat} (h : d ≠ 0) : popcount (d - 2 ^ Nat.log2 d) + 1 = popcount d := by
  have hle := Nat.log2_self_le h
  have hlt : d < 2 ^ (Nat.log2 d + 1) := Nat.lt_log2_self
  rw [Nat.pow_succ] at hlt
  have hsplit : d = (d - 2 ^ Nat.log2 d) + 2 ^ Nat.log2 d * 1 := by omega
  conv => rhs; rw [hsplit]
  rw [popcount_add_mul (by omega), popcount_one]

theorem trailing_sub {l m : Nat} (hm : m ≠ 0) (h : l < trailing m) : trailing (m - 2 ^ l) = l := by
  obtain ⟨q, hq⟩ := eq_odd hm
  obtain ⟨j, hj⟩ : ∃ j, trailing m = l + (j + 1) := ⟨trailing m - l - 1, by omega⟩
  rw [hj] at hq
  have hpos : 0 < 2 ^ j * (2 * q + 1) := Nat.mul_pos (Nat.two_pow_pos j) (by omega)
  have hsub : m - 2 ^ l = 2 ^ l * (2 * (2 ^ j * (2 * q + 1) - 1) + 1) := by
    have hm' : m = 2 ^ l * (2 * (2 ^ j * (2 * q + 1))) := by
      rw [hq, Nat.pow_add, Nat.pow_succ]
      ring
    calc m - 2 ^ l = 2 ^ l * (2 * (2 ^ j * (2 * q + 1))) - 2 ^ l * 1 := by
          rw [← hm', Nat.mul_one]
      _ = 2 ^ l * (2 * (2 ^ j * (2 * q + 1)) - 1) := (Nat.mul_sub _ _ _).symm
      _ = 2 ^ l * (2 * (2 ^ j * (2 * q + 1) - 1) + 1) := by congr 1; omega
  rw [hsub, trailing_odd]

/-- Near the target a hop takes the highest one out of the distance. -/
theorem walk_near (hl : Linked ptr addr n) {target fuel cur : Nat} (hcur : cur < n)
    (hle : target ≤ cur) (hnear : cur = target ∨ Nat.log2 (cur - target) < trailing cur)
    (hfuel : popcount (cur - target) ≤ fuel) : walk ptr target fuel cur (addr cur) = some (addr target) := by
  induction fuel generalizing cur with
  | zero =>
    have heq : cur = target := by
      by_contra hne
      have := popcount_pos (show cur - target ≠ 0 by omega)
      omega
    rw [walk, if_pos (by omega), heq]
  | succ fuel ih =>
    by_cases heq : cur = target
    · rw [walk, if_pos (by omega), heq]
    · have hlog := hnear.resolve_left heq
      have hhop : hop target cur = Nat.log2 (cur - target) := Nat.min_eq_left (by omega)
      have hpow := Nat.log2_self_le (show cur - target ≠ 0 by omega)
      have hptr := hl cur hcur (by omega) (hop target cur) (Nat.min_le_right _ _)
      have hdist : cur - 2 ^ hop target cur - target =
          cur - target - 2 ^ Nat.log2 (cur - target) := by rw [hhop]; omega
      have hcount := popcount_sub_log2 (show cur - target ≠ 0 by omega)
      have hpos := Nat.two_pow_pos (hop target cur)
      have htrail : trailing (cur - 2 ^ hop target cur) = Nat.log2 (cur - target) := by
        rw [hhop]
        exact trailing_sub (by omega) hlog
      rw [walk, if_neg (by omega), hptr]
      refine ih (by omega) (by rw [hhop]; omega) ?_ (by rw [hdist]; omega)
      by_cases hend : cur - 2 ^ hop target cur = target
      · exact .inl hend
      · have hlt : cur - target < 2 ^ (Nat.log2 (cur - target) + 1) := Nat.lt_log2_self
        rw [Nat.pow_succ] at hlt
        right
        rw [htrail, hdist, Nat.log2_lt (by rw [← hdist]; rw [hhop] at hend ⊢; omega)]
        omega

/-- Before that it takes the lowest one out of the index. -/
theorem walk_spec (hl : Linked ptr addr n) {target fuel cur : Nat} (hcur : cur < n)
    (hle : target ≤ cur) (hfuel : popcount cur + (Nat.log2 (cur - target) + 1) ≤ fuel) :
    walk ptr target fuel cur (addr cur) = some (addr target) := by
  induction fuel generalizing cur with
  | zero => omega
  | succ fuel ih =>
    by_cases heq : cur = target
    · rw [walk, if_pos (by omega), heq]
    · by_cases hnear : Nat.log2 (cur - target) < trailing cur
      · refine walk_near hl hcur hle (.inr hnear) ?_
        have hlt : cur - target < 2 ^ (Nat.log2 (cur - target) + 1) := Nat.lt_log2_self
        have := popcount_le hlt
        omega
      · have hhop : hop target cur = trailing cur := Nat.min_eq_right (by omega)
        have hpow := two_pow_hop_le (show target < cur by omega)
        have hptr := hl cur hcur (by omega) (hop target cur) (Nat.min_le_right _ _)
        have hcount := popcount_sub_trailing (show cur ≠ 0 by omega)
        have hpos := Nat.two_pow_pos (hop target cur)
        have hlog : Nat.log2 (cur - 2 ^ hop target cur - target) ≤ Nat.log2 (cur - target) := by
          by_cases hz : cur - 2 ^ hop target cur - target = 0
          · rw [hz]
            exact Nat.zero_le _
          · rw [Nat.le_log2 (by omega)]
            exact Nat.le_trans (Nat.log2_self_le hz) (by omega)
        rw [walk, if_neg (by omega), hptr]
        refine ih (by omega) (by omega) ?_
        rw [← hhop] at hcount
        omega

/-- Every node from `cur` on, two at a time where there are two pointers. -/
def trace (ptr : α → Nat → α) : Nat → α → List α
  | 0, node => [node]
  | 1, node => [node, ptr node 0]
  | cur + 2, node =>
    if cur % 2 = 1 then node :: trace ptr (cur + 1) (ptr node 0)
    else node :: ptr node 0 :: trace ptr cur (ptr node 1)

theorem trace_odd {cur : Nat} (h : cur % 2 = 1) (node : α) :
    trace ptr cur node = node :: trace ptr (cur - 1) (ptr node 0) := by
  match cur, h with
  | 1, _ => rfl
  | cur + 2, h => rw [trace, if_pos (by omega)]; rfl

theorem trace_even {cur : Nat} (h : cur % 2 = 0) (hne : cur ≠ 0) (node : α) :
    trace ptr cur node = node :: ptr node 0 :: trace ptr (cur - 2) (ptr node 1) := by
  match cur, h, hne with
  | cur + 2, h, _ => rw [trace, if_neg (by omega)]; rfl

theorem trace_eq (hl : Linked ptr addr n) {cur : Nat} (hcur : cur < n) :
    trace ptr cur (addr cur) = (List.range (cur + 1)).reverse.map addr := by
  induction cur using Nat.strongRecOn with
  | ind cur ih =>
    match cur, ih, hcur with
    | 0, _, _ => rfl
    | 1, _, hcur =>
      have hptr := hl 1 hcur (by decide) 0 (Nat.zero_le _)
      rw [trace, hptr]
      rfl
    | cur + 2, ih, hcur =>
      have hfirst := hl (cur + 2) hcur (by omega) 0 (Nat.zero_le _)
      rw [trace, hfirst, List.range_succ, List.reverse_append, List.map_append]
      split
      · rename_i hodd
        rw [show cur + 2 - 2 ^ 0 = cur + 1 by simp, ih (cur + 1) (by omega) (by omega)]
        rfl
      · rename_i heven
        have htrail := one_le_trailing (show cur + 2 ≠ 0 by omega) (by omega)
        have hsecond := hl (cur + 2) hcur (by omega) 1 htrail
        rw [hsecond, show cur + 2 - 2 ^ 1 = cur by simp, ih cur (by omega) (by omega),
          List.range_succ (n := cur + 1), List.reverse_append, List.map_append]
        rfl

/-- The pointers of a new node, each one from the node the one before leads to. -/
def heads (ptr : α → Nat → α) (head : α) : Nat → α
  | 0 => head
  | k + 1 => ptr (heads ptr head k) k

theorem heads_eq (hl : Linked ptr addr n) (hn : n ≠ 0) {k : Nat} (hk : k ≤ trailing n) :
    heads ptr (addr (n - 1)) k = addr (n - 2 ^ k) := by
  induction k with
  | zero => rfl
  | succ k ih =>
    have hlt : 2 ^ (k + 1) ≤ n :=
      Nat.le_trans (Nat.pow_le_pow_right (by decide) hk) (two_pow_trailing_le hn)
    rw [Nat.pow_succ] at hlt
    have hpos := Nat.two_pow_pos k
    have hptr := hl (n - 2 ^ k) (by omega) (by omega) k
      (Nat.le_of_eq (trailing_sub hn (by omega)).symm)
    rw [heads, ih (by omega), hptr, Nat.pow_succ]
    congr 1
    omega

end Pointers

end SkipList
