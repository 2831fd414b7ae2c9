import Mathlib.Data.List.Basic
import Mathlib.Data.List.Induction

/-!
# Splices

A log about a sequence of items. Items are created and deleted at an index, which moves the items after
them, and values are put into the item at an index.

* `replay`: the values each item has after a log, the newest first. `grow`: how many items there are.
* `find`: the search from the end of the log for a value. `find_reverse`: it finds the newest one.
* `survive`: what becomes of a value in the rest of a log. `Compacts`: values of a log are left, with the
  index they have in the end. `Compacts.lookup_eq`: they give every item the value it has.
* `slice`: a range of the items. `Compacts.lookup_slice`: they keep their values at their new place.
-/

namespace Splices

variable {κ ν γ : Type}

inductive Edit (κ ν : Type) where
  | create (i : Nat)
  | delete (i : Nat)
  | put (i : Nat) (k : κ) (v : ν)

/-- The values of each item, the newest first. -/
abbrev Items (κ ν : Type) := Nat → List (κ × ν)

def blank : Items κ ν := fun _ => []

namespace Edit

def apply (e : Edit κ ν) (s : Items κ ν) : Items κ ν :=
  match e with
  | create i => fun j => if j < i then s j else if j = i then [] else s (j - 1)
  | delete i => fun j => if j < i then s j else s (j + 1)
  | put i k v => fun j => if j = i then (k, v) :: s j else s j

/-- Which item comes to be at `j`, and where the item at `i` goes. -/
def before (e : Edit κ ν) (j : Nat) : Option Nat :=
  match e with
  | create i => if j < i then some j else if j = i then none else some (j - 1)
  | delete i => if j < i then some j else some (j + 1)
  | put _ _ _ => some j

def after (e : Edit κ ν) (i : Nat) : Option Nat :=
  match e with
  | create j => if j ≤ i then some (i + 1) else some i
  | delete j => if j = i then none else if j < i then some (i - 1) else some i
  | put _ _ _ => some i

/-- The values that are new. -/
def fresh (e : Edit κ ν) (j : Nat) : List (κ × ν) :=
  match e with
  | create _ => []
  | delete _ => []
  | put i k v => if j = i then [(k, v)] else []

theorem before_eq_iff (e : Edit κ ν) (i j : Nat) : e.before j = some i ↔ e.after i = some j := by
  cases e with
  | create k =>
    simp only [before, after]
    grind
  | delete k =>
    simp only [before, after]
    grind
  | put k _ _ =>
    simp only [before, after, Option.some.injEq]
    exact eq_comm

theorem apply_eq (e : Edit κ ν) (s : Items κ ν) (j : Nat) :
    e.apply s j = e.fresh j ++ (e.before j).elim [] s := by
  cases e with
  | create i =>
    simp only [apply, fresh, before, List.nil_append]
    grind
  | delete i =>
    simp only [apply, fresh, before, List.nil_append]
    grind
  | put i k v =>
    simp only [apply, fresh, before, Option.elim_some]
    split <;> rfl

end Edit

/-! ## Replay -/

def replay (log : List (Edit κ ν)) (s : Items κ ν) : Items κ ν :=
  log.foldl (fun s e => e.apply s) s

/-- Which item of the start is at `j` in the end. -/
def origin : List (Edit κ ν) → Nat → Option Nat
  | [], j => some j
  | e :: log, j => (origin log j).bind e.before

@[simp] theorem replay_nil (s : Items κ ν) : replay [] s = s := rfl

@[simp] theorem replay_cons (e : Edit κ ν) (log : List (Edit κ ν)) (s : Items κ ν) :
    replay (e :: log) s = replay log (e.apply s) := rfl

theorem replay_append (log log' : List (Edit κ ν)) (s : Items κ ν) :
    replay (log ++ log') s = replay log' (replay log s) := List.foldl_append

theorem origin_inj {log : List (Edit κ ν)} {i j j' : Nat} (h : origin log j = some i)
    (h' : origin log j' = some i) : j = j' := by
  induction log generalizing i with
  | nil =>
    cases h
    exact (Option.some.inj h').symm
  | cons e log ih =>
    obtain ⟨k, hk, hbefore⟩ := Option.bind_eq_some_iff.mp h
    obtain ⟨k', hk', hbefore'⟩ := Option.bind_eq_some_iff.mp h'
    have hsame := (e.before_eq_iff i k).mp hbefore
    rw [(e.before_eq_iff i k').mp hbefore'] at hsame
    exact ih hk (Option.some.inj hsame ▸ hk')

theorem origin_append (log log' : List (Edit κ ν)) (j : Nat) :
    origin (log ++ log') j = (origin log' j).bind (origin log) := by
  induction log with
  | nil => cases h : origin log' j <;> simp [h, origin]
  | cons e log ih =>
    rw [List.cons_append, origin, ih, Option.bind_assoc]
    rfl

/-- The item at `j` has always been below `b`. -/
def Within (b : Nat) (log : List (Edit κ ν)) (j : Nat) : Prop :=
  ∀ log', log' <:+ log → ∀ i, origin log' j = some i → i < b

theorem Within.lt {b j : Nat} {log : List (Edit κ ν)} (h : Within b log j) : j < b :=
  h [] (List.nil_suffix) j rfl

theorem Within.snoc {b i j : Nat} {log : List (Edit κ ν)} {e : Edit κ ν} (h : Within b (log ++ [e]) j)
    (hbefore : e.before j = some i) : Within b log i := by
  intro log' hsuffix i' horigin
  refine h (log' ++ [e]) ?_ i' ?_
  · obtain ⟨rest, rfl⟩ := hsuffix
    exact ⟨rest, List.append_assoc _ _ _ |>.symm⟩
  · rw [origin_append, origin, origin, Option.bind_some, hbefore, Option.bind_some, horigin]

theorem Within.of_snoc {b j : Nat} {log : List (Edit κ ν)} {e : Edit κ ν} (hj : j < b)
    (h : ∀ i, e.before j = some i → Within b log i) : Within b (log ++ [e]) j := by
  intro log' hsuffix i horigin
  rcases List.eq_nil_or_concat log' with rfl | ⟨rest, e', rfl⟩
  · cases horigin
    exact hj
  · obtain ⟨pre, hpre⟩ := hsuffix
    rw [List.concat_eq_append, ← List.append_assoc] at hpre
    rw [List.concat_eq_append] at horigin
    obtain ⟨rfl, hlast⟩ := List.append_inj' hpre rfl
    cases hlast
    rw [origin_append, origin, origin, Option.bind_some] at horigin
    obtain ⟨i', hbefore, horigin'⟩ := Option.bind_eq_some_iff.mp horigin
    exact h i' hbefore rest ⟨pre, rfl⟩ i horigin'

/-! ### Counting -/

/-- The number of items, with a limit, and whether there was a splice. A value may come before its item
was created as long as there was none. -/
def grow (b : Nat) (n : Nat × Bool) (e : Edit κ ν) : Option (Nat × Bool) :=
  match e with
  | .create i => if i ≤ n.1 ∧ n.1 < b then some (n.1 + 1, true) else none
  | .delete i => if i < n.1 then some (n.1 - 1, true) else none
  | .put i _ _ => if i < n.1 ∨ n.2 = false ∧ i < b then some (max n.1 (i + 1), n.2) else none

section Grow

variable {b i : Nat} {n n' : Nat × Bool} {k : κ} {v : ν} {e : Edit κ ν}

theorem grow_create :
    grow b n (.create i : Edit κ ν) = some n' ↔ (i ≤ n.1 ∧ n.1 < b) ∧ (n.1 + 1, true) = n' := by
  rw [grow, Option.ite_none_right_eq_some, Option.some_inj]

theorem grow_delete : grow b n (.delete i : Edit κ ν) = some n' ↔ i < n.1 ∧ (n.1 - 1, true) = n' := by
  rw [grow, Option.ite_none_right_eq_some, Option.some_inj]

theorem grow_put :
    grow b n (.put i k v) = some n' ↔ (i < n.1 ∨ n.2 = false ∧ i < b) ∧ (max n.1 (i + 1), n.2) = n' := by
  rw [grow, Option.ite_none_right_eq_some, Option.some_inj]

theorem grow_le (h : grow b n e = some n') (hn : n.1 ≤ b) : n'.1 ≤ b := by
  cases e with
  | create i =>
    obtain ⟨hi, rfl⟩ := grow_create.mp h
    exact hi.2
  | delete i =>
    obtain ⟨-, rfl⟩ := grow_delete.mp h
    exact Nat.le_trans (Nat.sub_le _ _) hn
  | put i k v =>
    obtain ⟨hi, rfl⟩ := grow_put.mp h
    exact Nat.max_le.mpr ⟨hn, by omega⟩

/-- An item that is there, or would be the next, stays so. -/
theorem after_le {i' : Nat} (h : grow b n e = some n') (hi : i ≤ n.1) (hafter : e.after i = some i') :
    i' ≤ n'.1 := by
  cases e with
  | create k =>
    obtain ⟨-, rfl⟩ := grow_create.mp h
    simp only [Edit.after] at hafter ⊢
    grind
  | delete k =>
    obtain ⟨hk, rfl⟩ := grow_delete.mp h
    simp only [Edit.after] at hafter ⊢
    grind
  | put k _ _ =>
    obtain ⟨-, rfl⟩ := grow_put.mp h
    cases hafter
    exact Nat.le_trans hi (Nat.le_max_left _ _)

end Grow

theorem foldlM_grow_le {b : Nat} {n n' : Nat × Bool} {log : List (Edit κ ν)}
    (h : log.foldlM (grow b) n = some n') (hn : n.1 ≤ b) : n'.1 ≤ b := by
  induction log generalizing n with
  | nil =>
    cases h
    exact hn
  | cons e log ih =>
    obtain ⟨n₁, he, hlog⟩ := Option.bind_eq_some_iff.mp h
    exact ih hlog (grow_le he hn)

/-- The items of a log that counts right have always been below the limit. -/
theorem within_of_count {b : Nat} {log : List (Edit κ ν)} {n : Nat × Bool}
    (h : log.foldlM (grow b) (0, false) = some n) :
    n.1 ≤ b ∧ (∀ j < n.1, Within b log j) ∧ (n.2 = false → ∀ j < b, Within b log j) := by
  induction log using List.reverseRecOn generalizing n with
  | nil =>
    cases h
    refine ⟨Nat.zero_le b, fun j hj => absurd hj (Nat.not_lt_zero j), fun _ j hj => ?_⟩
    intro log' hsuffix i horigin
    rw [List.suffix_nil.mp hsuffix] at horigin
    cases horigin
    exact hj
  | append_singleton log e ih =>
    rw [List.foldlM_append] at h
    obtain ⟨⟨n₀, spliced⟩, hlog, he⟩ := Option.bind_eq_some_iff.mp h
    obtain ⟨hle, hwithin, hfree⟩ := ih hlog
    replace he : grow b (n₀, spliced) e = some n := by simpa using he
    cases e with
    | create i =>
      obtain ⟨hi, rfl⟩ := grow_create.mp he
      refine ⟨hi.2, fun j hj => Within.of_snoc (by omega) fun k hk => hwithin k ?_, fun hfalse => by cases hfalse⟩
      simp only [Edit.before] at hk
      grind
    | delete i =>
      obtain ⟨hi, rfl⟩ := grow_delete.mp he
      refine ⟨by omega, fun j hj => Within.of_snoc (by omega) fun k hk => hwithin k ?_,
        fun hfalse => by cases hfalse⟩
      simp only [Edit.before] at hk
      grind
    | put i k v =>
      obtain ⟨hi, rfl⟩ := grow_put.mp he
      refine ⟨by omega, fun j hj => Within.of_snoc (by omega) fun k' hk => ?_,
        fun hfalse j hj => Within.of_snoc hj fun k' hk => ?_⟩
      · cases hk
        by_cases hj' : j < n₀
        · exact hwithin j hj'
        · rcases hi with hi | ⟨hspliced, hb⟩
          · omega
          · exact hfree hspliced j (by omega)
      · cases hk
        exact hfree hfalse j hj

/-- An item that is below a limit as it moves through a log. -/
def Remains (b : Nat) : List (Edit κ ν) → Nat → Prop
  | [], i => i < b
  | e :: log, i => i < b ∧ ∀ i', e.after i = some i' → Remains b log i'

theorem Remains.lt {b i : Nat} {log : List (Edit κ ν)} (h : Remains b log i) : i < b := by
  cases log with
  | nil => exact h
  | cons e log => exact h.1

/-- An item that is there, or would be the next, as long as a log counts right. -/
theorem remains_of_count {b i : Nat} {log : List (Edit κ ν)} {n n' : Nat × Bool}
    (h : log.foldlM (grow b) n = some n') (hn : n.1 ≤ b) (hi : i ≤ n.1) : Remains (b + 1) log i := by
  induction log generalizing n i with
  | nil => exact Nat.lt_succ_of_le (Nat.le_trans hi hn)
  | cons e log ih =>
    obtain ⟨n₁, he, hlog⟩ := Option.bind_eq_some_iff.mp h
    exact ⟨Nat.lt_succ_of_le (Nat.le_trans hi hn), fun i' hafter =>
      ih hlog (grow_le he hn) (after_le he hi hafter)⟩

/-- What a log adds, and what it leaves of the start. -/
theorem replay_eq (log : List (Edit κ ν)) (s : Items κ ν) (j : Nat) :
    replay log s j = replay log blank j ++ (origin log j).elim [] s := by
  induction log generalizing s with
  | nil => rfl
  | cons e log ih =>
    rw [replay_cons, replay_cons, ih, ih (e.apply blank), origin, List.append_assoc]
    congr 1
    cases origin log j with
    | none => rfl
    | some i =>
      simp only [Option.elim_some, Option.bind_some, e.apply_eq s, e.apply_eq blank]
      cases e.before i with
      | none => simp only [Option.elim_none, List.append_nil]
      | some i' => simp only [Option.elim_some, blank, List.append_nil]

theorem replay_cons_blank (e : Edit κ ν) (log : List (Edit κ ν)) (j : Nat) :
    replay (e :: log) blank j = replay log blank j ++ (origin log j).elim [] e.fresh := by
  rw [replay_cons, replay_eq]
  congr 1
  cases origin log j with
  | none => rfl
  | some i =>
    rw [Option.elim_some, Option.elim_some, e.apply_eq]
    cases e.before i <;> simp only [Option.elim_none, Option.elim_some, blank, List.append_nil]

/-! ## From the end -/

/-- The newest entry comes first. -/
def find (p : κ → Bool) : List (Edit κ ν) → Nat → Option (κ × ν)
  | [], _ => none
  | .create i :: log, j => if j = i then none else find p log (if i < j then j - 1 else j)
  | .delete i :: log, j => find p log (if i ≤ j then j + 1 else j)
  | .put i k v :: log, j => if i = j ∧ p k then some (k, v) else find p log j

theorem find_reverse (p : κ → Bool) (log : List (Edit κ ν)) (j : Nat) :
    find p log.reverse j = (replay log blank j).find? fun x => p x.1 := by
  induction log using List.reverseRecOn generalizing j with
  | nil => rfl
  | append_singleton log e ih =>
    rw [List.reverse_concat, replay_append, replay_cons, replay_nil]
    cases e with
    | create i =>
      simp only [find, Edit.apply]
      rcases Nat.lt_trichotomy j i with h | h | h
      · rw [if_neg (Nat.ne_of_lt h), if_neg (Nat.lt_asymm h), if_pos h, ih]
      · rw [if_pos h, if_neg (by omega), if_pos h]
        rfl
      · rw [if_neg (Nat.ne_of_gt h), if_pos h, if_neg (Nat.lt_asymm h), if_neg (Nat.ne_of_gt h), ih]
    | delete i =>
      simp only [find, Edit.apply]
      by_cases h : i ≤ j
      · rw [if_pos h, if_neg (Nat.not_lt.mpr h), ih]
      · rw [if_neg h, if_pos (Nat.lt_of_not_le h), ih]
    | put i k v =>
      simp only [find, Edit.apply, ih]
      by_cases h : j = i
      · rw [if_pos h, List.find?_cons]
        cases hp : p k with
        | true => rw [if_pos ⟨h.symm, rfl⟩]
        | false => rw [if_neg (fun hand => Bool.false_ne_true hand.2)]
      · rw [if_neg h, if_neg (fun hand => h hand.1.symm)]

/-! ## Compaction -/

section Compact

variable [DecidableEq γ] (cls : κ → γ) (gone : ν → Bool)

/-- A later value of the same class. -/
def Edit.Overrides (c : γ) (i : Nat) : Edit κ ν → Prop
  | .put j k _ => j = i ∧ cls k = c
  | _ => False

instance (c : γ) (i : Nat) (e : Edit κ ν) : Decidable (e.Overrides cls c i) := by
  cases e <;> unfold Edit.Overrides <;> infer_instance

/-- What becomes of a value of class `c` in item `i` in the rest of a log. -/
def survive (c : γ) : List (Edit κ ν) → Nat → Option Nat
  | [], i => some i
  | e :: log, i => if e.Overrides cls c i then none else (e.after i).bind (survive c log)

/-- What is left of a log are values that no later value overrides. A value that says that there is none may
be left out as well. -/
inductive Compacts : List (Edit κ ν) → List (Edit κ ν) → Prop where
  | nil : Compacts [] []
  | create {log kept : List (Edit κ ν)} (i : Nat) (h : Compacts log kept) : Compacts (.create i :: log) kept
  | delete {log kept : List (Edit κ ν)} (i : Nat) (h : Compacts log kept) : Compacts (.delete i :: log) kept
  | keep {log kept : List (Edit κ ν)} {i j : Nat} {k : κ} {v : ν} (hj : survive cls (cls k) log i = some j)
      (h : Compacts log kept) : Compacts (.put i k v :: log) (.put j k v :: kept)
  | drop {log kept : List (Edit κ ν)} {i : Nat} {k : κ} {v : ν}
      (hv : survive cls (cls k) log i = none ∨ gone v = true) (h : Compacts log kept) :
      Compacts (.put i k v :: log) kept

/-- The value of a class an item has. -/
def lookup (c : γ) (values : List (κ × ν)) : Option (κ × ν) :=
  (values.find? fun x => cls x.1 = c).filter fun x => !gone x.2

variable {cls gone} {c : γ} {log kept : List (Edit κ ν)}

theorem survive_some {i j : Nat} (h : survive cls c log i = some j) :
    origin log j = some i ∧ ∀ x ∈ replay log blank j, cls x.1 ≠ c := by
  induction log generalizing i with
  | nil =>
    cases h
    exact ⟨rfl, fun x hx => absurd hx List.not_mem_nil⟩
  | cons e log ih =>
    simp only [survive] at h
    split at h
    · cases h
    · rename_i hkeep
      obtain ⟨i', hafter, hrest⟩ := Option.bind_eq_some_iff.mp h
      obtain ⟨horigin, hnone⟩ := ih hrest
      refine ⟨?_, fun x hx => ?_⟩
      · rw [origin, horigin]
        exact (e.before_eq_iff i i').mpr hafter
      · rw [replay_cons_blank, horigin, List.mem_append] at hx
        rcases hx with hx | hx
        · exact hnone x hx
        · intro hcls
          apply hkeep
          cases e with
          | create _ => cases hx
          | delete _ => cases hx
          | put k key v =>
            cases hafter
            simp only [Option.elim_some, Edit.fresh] at hx
            split at hx
            · rename_i hi
              rw [List.mem_singleton] at hx
              subst hx
              exact ⟨hi.symm, hcls⟩
            · cases hx

theorem survive_none {i j : Nat} (h : survive cls c log i = none) (horigin : origin log j = some i) :
    ∃ x ∈ replay log blank j, cls x.1 = c := by
  induction log generalizing i with
  | nil => cases h
  | cons e log ih =>
    obtain ⟨i', hi', hbefore⟩ := Option.bind_eq_some_iff.mp horigin
    have hafter := (e.before_eq_iff i i').mp hbefore
    rw [replay_cons_blank, hi', Option.elim_some]
    simp only [survive, hafter, Option.bind_some] at h
    split at h
    · rename_i hover
      cases e with
      | create _ => cases hover
      | delete _ => cases hover
      | put k key v =>
        obtain ⟨rfl, hcls⟩ := hover
        cases hafter
        refine ⟨(key, v), List.mem_append_right _ ?_, hcls⟩
        simp only [Edit.fresh, if_true, List.mem_singleton]
    · obtain ⟨x, hx, hcls⟩ := ih h hi'
      exact ⟨x, List.mem_append_left _ hx, hcls⟩

theorem lookup_append (values values' : List (κ × ν)) : lookup cls gone c (values ++ values') =
    if values.find? (fun x => cls x.1 = c) = none then lookup cls gone c values'
    else lookup cls gone c values := by
  unfold lookup
  rw [List.find?_append]
  cases values.find? (fun x => cls x.1 = c) with
  | none => rfl
  | some x => rfl

theorem lookup_append_of_none {values values' : List (κ × ν)} (h : ∀ x ∈ values', cls x.1 ≠ c) :
    lookup cls gone c (values ++ values') = lookup cls gone c values := by
  have hnone : values'.find? (fun x => cls x.1 = c) = none :=
    List.find?_eq_none.mpr fun x hx => by simpa using h x hx
  rw [lookup_append]
  split
  · rename_i hfind
    unfold lookup
    rw [hnone, hfind]
  · rfl

/-- A value that does not survive, or says that there is none, is not the value of its item. -/
theorem lookup_dropped {i : Nat} {k : κ} {v : ν} (h : survive cls (cls k) log i = none ∨ gone v = true)
    (c : γ) (j : Nat) :
    lookup cls gone c (replay (.put i k v :: log) blank j) = lookup cls gone c (replay log blank j) := by
  rw [replay_cons_blank]
  cases horigin : origin log j with
  | none => rw [Option.elim_none, List.append_nil]
  | some i' =>
    simp only [Option.elim_some, Edit.fresh]
    by_cases hi : i' = i
    · subst hi
      rw [if_pos rfl, lookup_append]
      split
      · rename_i hfind
        by_cases hc : cls k = c
        · have hgone : gone v = true := by
            refine h.resolve_left fun hnone => ?_
            obtain ⟨x, hx, hcls⟩ := survive_none hnone horigin
            have hne := List.find?_eq_none.mp hfind x hx
            simp only [hcls, hc, decide_true, not_true_eq_false] at hne
          unfold lookup
          rw [hfind]
          simp [hc, hgone, Option.filter]
        · unfold lookup
          rw [hfind]
          simp [hc]
      · rfl
    · rw [if_neg hi, List.append_nil]

/-- A value that survives is in one item, below the values that came after it. -/
theorem replay_kept {i j' : Nat} {k : κ} {v : ν} (h : survive cls c log i = some j') (j : Nat) :
    replay (.put i k v :: log) blank j =
      replay log blank j ++ if j = j' then [(k, v)] else [] := by
  obtain ⟨horigin, -⟩ := survive_some h
  rw [replay_cons_blank]
  congr 1
  by_cases hj : j = j'
  · subst hj
    rw [horigin, Option.elim_some, Edit.fresh, if_pos rfl, if_pos rfl]
  · rw [if_neg hj]
    cases ho : origin log j with
    | none => rfl
    | some i' =>
      rw [Option.elim_some, Edit.fresh]
      refine if_neg fun hi => hj ?_
      subst hi
      exact origin_inj ho horigin

/-! ### Logs of values alone -/

/-- No entry moves an item. -/
def Flat (log : List (Edit κ ν)) : Prop := ∀ e ∈ log, ∃ i k v, e = .put i k v

theorem replay_flat {i : Nat} {k : κ} {v : ν} (h : Flat log) (j : Nat) :
    replay (.put i k v :: log) blank j = replay log blank j ++ if j = i then [(k, v)] else [] := by
  have horigin : origin log j = some j := by
    induction log with
    | nil => rfl
    | cons e log ih =>
      obtain ⟨i, k, v, rfl⟩ := h e List.mem_cons_self
      rw [origin, ih fun e he => h e (List.mem_cons_of_mem _ he)]
      rfl
  rw [replay_cons_blank, horigin]
  rfl

theorem Flat.cons {i : Nat} {k : κ} {v : ν} (h : Flat log) : Flat (.put i k v :: log) := by
  intro e he
  rcases List.mem_cons.mp he with rfl | he
  · exact ⟨i, k, v, rfl⟩
  · exact h e he

theorem Compacts.flat (h : Compacts cls gone log kept) : Flat kept := by
  induction h with
  | nil => exact fun e he => absurd he List.not_mem_nil
  | create i _ ih => exact ih
  | delete i _ ih => exact ih
  | keep _ _ ih => exact ih.cons
  | drop _ _ ih => exact ih

/-- The values that are left are values of the log. -/
theorem Compacts.mem (h : Compacts cls gone log kept) {j : Nat} {x : κ × ν}
    (hx : x ∈ replay kept blank j) : x ∈ replay log blank j := by
  induction h with
  | nil => exact hx
  | create i _ ih | delete i _ ih =>
    rw [replay_cons_blank]
    exact List.mem_append_left _ (ih hx)
  | keep hj h ih =>
    rw [replay_flat h.flat, List.mem_append] at hx
    rw [replay_kept hj, List.mem_append]
    exact hx.imp_left ih
  | drop _ _ ih =>
    rw [replay_cons_blank]
    exact List.mem_append_left _ (ih hx)

/-- Every item has the same value of each class. -/
theorem Compacts.lookup_eq (h : Compacts cls gone log kept) (c : γ) (j : Nat) :
    lookup cls gone c (replay kept blank j) = lookup cls gone c (replay log blank j) := by
  induction h with
  | nil => rfl
  | @create log _ i _ ih =>
    rw [ih, replay_cons_blank]
    cases origin log j <;> exact congrArg _ (List.append_nil _).symm
  | @delete log _ i _ ih =>
    rw [ih, replay_cons_blank]
    cases origin log j <;> exact congrArg _ (List.append_nil _).symm
  | drop hv _ ih => rw [ih, lookup_dropped hv]
  | @keep log kept i j' k v hj h ih =>
    obtain ⟨-, hnone⟩ := survive_some hj
    rw [replay_kept hj, replay_flat h.flat]
    by_cases hjj : j = j'
    · subst hjj
      rw [if_pos rfl]
      by_cases hc : cls k = c
      · subst hc
        have hfind : (replay log blank j).find? (fun x => cls x.1 = cls k) = none :=
          List.find?_eq_none.mpr fun x hx => by simpa using hnone x hx
        have hfind' : (replay kept blank j).find? (fun x => cls x.1 = cls k) = none :=
          List.find?_eq_none.mpr fun x hx => by simpa using hnone x (h.mem hx)
        rw [lookup_append, if_pos hfind', lookup_append, if_pos hfind]
      · have hother : ∀ x ∈ [(k, v)], cls x.1 ≠ c := by
          intro x hx
          rw [List.mem_singleton] at hx
          rwa [hx]
        rw [lookup_append_of_none hother, lookup_append_of_none hother, ih]
    · rw [if_neg hjj, List.append_nil, List.append_nil, ih]

/-! ### Ranges of items -/

/-- The values that `sel` takes of the items from `first` to `last`, which go to `base` and on. -/
def slice (sel : κ → Bool) (first last base : Nat) : Edit κ ν → Option (Edit κ ν)
  | .put i k v => if sel k ∧ first ≤ i ∧ i < last then some (.put (i - first + base) k v) else none
  | _ => none

theorem slice_put {sel : κ → Bool} {first last i : Nat} {k : κ} (h : sel k ∧ first ≤ i ∧ i < last)
    (base : Nat) (v : ν) : slice sel first last base (.put i k v) = some (.put (i - first + base) k v) :=
  if_pos h

theorem flat_slice (sel : κ → Bool) (first last base : Nat) (log : List (Edit κ ν)) :
    Flat (log.filterMap (slice sel first last base)) := by
  intro e he
  obtain ⟨e', -, he'⟩ := List.mem_filterMap.mp he
  cases e' with
  | create i => cases he'
  | delete i => cases he'
  | put i k v =>
    simp only [slice] at he'
    split at he'
    · cases he'
      exact ⟨_, _, _, rfl⟩
    · cases he'

theorem replay_slice (h : Flat kept) {sel : κ → Bool} {first last base j : Nat} (hfirst : first ≤ j)
    (hlast : j < last) :
    replay (kept.filterMap (slice sel first last base)) blank (j - first + base) =
      (replay kept blank j).filter fun x => sel x.1 := by
  induction kept with
  | nil => rfl
  | cons e kept ih =>
    obtain ⟨i, k, v, rfl⟩ := h e List.mem_cons_self
    have hflat : Flat kept := fun e he => h e (List.mem_cons_of_mem _ he)
    rw [replay_flat hflat, List.filter_append, ← ih hflat]
    by_cases hin : sel k ∧ first ≤ i ∧ i < last
    · rw [List.filterMap_cons_some (slice_put hin base v),
        replay_flat (flat_slice sel first last base kept)]
      congr 1
      by_cases hji : j = i
      · subst hji
        simp [hin.1]
      · rw [if_neg (by omega), if_neg hji, List.filter_nil]
    · rw [List.filterMap_cons_none (show slice sel first last base (.put i k v) = _ from if_neg hin)]
      by_cases hji : j = i
      · subst hji
        have hsel : sel k = false := Bool.eq_false_iff.mpr fun hsel => hin ⟨hsel, hfirst, hlast⟩
        simp [hsel]
      · rw [if_neg hji, List.filter_nil, List.append_nil]

/-- A range of what is left has the values the items had. -/
theorem Compacts.lookup_slice (h : Compacts cls gone log kept) {sel : κ → Bool} {first last base j : Nat}
    (hfirst : first ≤ j) (hlast : j < last) (hsel : ∀ k, cls k = c → sel k = true) :
    lookup cls gone c (replay (kept.filterMap (slice sel first last base)) blank (j - first + base)) =
      lookup cls gone c (replay log blank j) := by
  have hand : (fun a : κ × ν => decide (sel a.1 = true ∧ (decide (cls a.1 = c)) = true)) =
      fun a => decide (cls a.1 = c) := by
    funext a
    by_cases hc : cls a.1 = c
    · simp [hc, hsel a.1 hc]
    · simp [hc]
  rw [replay_slice h.flat hfirst hlast, ← h.lookup_eq, lookup, List.find?_filter, hand]
  rfl

end Compact

/-! ## Other values -/

section Map

variable {ν' : Type} (f : ν → ν')

def Edit.map : Edit κ ν → Edit κ ν'
  | .create i => .create i
  | .delete i => .delete i
  | .put i k v => .put i k (f v)

theorem grow_map (b : Nat) (n : Nat × Bool) (e : Edit κ ν) : grow b n (e.map f) = grow b n e := by
  cases e <;> rfl

theorem Edit.before_map (e : Edit κ ν) (j : Nat) : (e.map f).before j = e.before j := by
  cases e <;> rfl

theorem origin_map (log : List (Edit κ ν)) (j : Nat) : origin (log.map (Edit.map f)) j = origin log j := by
  induction log with
  | nil => rfl
  | cons e log ih =>
    rw [List.map_cons, origin, ih, origin]
    congr 1
    funext i
    exact e.before_map f i

theorem replay_map (log : List (Edit κ ν)) (j : Nat) :
    replay (log.map (Edit.map f)) blank j = (replay log blank j).map fun x => (x.1, f x.2) := by
  induction log with
  | nil => rfl
  | cons e log ih =>
    rw [List.map_cons, replay_cons_blank, replay_cons_blank, ih, origin_map, List.map_append]
    congr 1
    cases origin log j with
    | none => rfl
    | some i =>
      cases e with
      | create k => rfl
      | delete k => rfl
      | put k key v =>
        simp only [Option.elim_some, Edit.map, Edit.fresh]
        split <;> rfl

theorem lookup_map [DecidableEq γ] {cls : κ → γ} {gone : ν → Bool} {gone' : ν' → Bool}
    (hgone : ∀ v, gone' (f v) = gone v) (c : γ) (values : List (κ × ν)) :
    lookup cls gone' c (values.map fun x => (x.1, f x.2)) =
      (lookup cls gone c values).map fun x => (x.1, f x.2) := by
  unfold lookup
  rw [List.find?_map]
  simp only [Function.comp_def]
  cases values.find? fun x => decide (cls x.1 = c) with
  | none => rfl
  | some x => simp only [Option.map_some, Option.filter_some, hgone, apply_ite (Option.map _), Option.map_none]

end Map

end Splices
