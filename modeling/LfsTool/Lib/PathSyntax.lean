import Mathlib.Data.List.Basic

/-!
# PathSyntax

Slash-separated paths as byte strings, and what they denote when no symbolic link is present.

* `components` cuts a path into its non-empty pieces; a separator between two paths makes the
  pieces of the whole the pieces of the two parts (`components_append_slash`).
* `location` normalises a path lexically: `.` and empty pieces vanish, `..` removes the piece
  before it. `Inside base path` says the location of `path` lies at or below that of `base`.
* `climbs d cs` walks the pieces `cs` from depth `d` and reports whether some `..` leaves depth
  zero. Pieces that never climb stay below wherever they start (`foldl_push_of_not_climbs`).
-/

namespace PathSyntax

/-- A name in a directory, as bytes. -/
abbrev Name := List UInt8

abbrev slash : UInt8 := 47
abbrev dot : Name := [46]
abbrev dotdot : Name := [46, 46]

/-! ## Components -/

def piece (cur : Name) : List Name := if cur = [] then [] else [cur]

/-- Cut the rest of a path, with `cur` the piece being read. -/
def split (cur : Name) : List UInt8 → List Name
  | [] => piece cur
  | c :: s => if c = slash then piece cur ++ split [] s else split (cur ++ [c]) s

def components (s : List UInt8) : List Name := split [] s

@[simp] theorem components_nil : components [] = [] := rfl

theorem split_append_slash (cur s t : List UInt8) :
    split cur (s ++ slash :: t) = split cur s ++ components t := by
  induction s generalizing cur with
  | nil => simp [split, components]
  | cons c s ih =>
    simp only [List.cons_append, split]
    split
    · rw [ih, List.append_assoc]
    · exact ih _

theorem components_append_slash (s t : List UInt8) :
    components (s ++ slash :: t) = components s ++ components t :=
  split_append_slash [] s t

theorem components_append_of_getLast {s : List UInt8} (h : s.getLast? = some slash)
    (t : List UInt8) : components (s ++ t) = components s ++ components t := by
  obtain ⟨r, rfl⟩ := List.getLast?_eq_some_iff.mp h
  rw [List.append_assoc, List.singleton_append, components_append_slash,
    components_append_slash, components_nil, List.append_nil]

theorem split_of_not_mem {n : List UInt8} (h : slash ∉ n) (cur : Name) :
    split cur n = piece (cur ++ n) := by
  induction n generalizing cur with
  | nil => simp [split]
  | cons c n ih =>
    simp only [List.mem_cons, not_or] at h
    rw [split, if_neg (fun hc => h.1 hc.symm), ih h.2, List.append_assoc, List.singleton_append]

theorem components_name {n : Name} (hne : n ≠ []) (h : slash ∉ n) : components n = [n] := by
  rw [components, split_of_not_mem h, List.nil_append, piece, if_neg hne]

/-! ## Proper names -/

/-- A name that denotes an entry of its own: not empty, no slash, no terminator, not `.` or `..`. -/
structure Proper (n : Name) : Prop where
  ne_nil : n ≠ []
  no_slash : slash ∉ n
  no_nul : (0 : UInt8) ∉ n
  ne_dot : n ≠ dot
  ne_dotdot : n ≠ dotdot

instance (n : Name) : Decidable (Proper n) :=
  decidable_of_iff (n ≠ [] ∧ slash ∉ n ∧ (0 : UInt8) ∉ n ∧ n ≠ dot ∧ n ≠ dotdot)
    ⟨fun ⟨a, b, c, d, e⟩ => ⟨a, b, c, d, e⟩, fun ⟨a, b, c, d, e⟩ => ⟨a, b, c, d, e⟩⟩

theorem Proper.components {n : Name} (h : Proper n) : components n = [n] :=
  components_name h.ne_nil h.no_slash

/-! ## Locations -/

/-- `..` applied to the pieces kept so far, the last one first: it removes a name, stays at the
root, and piles up where a relative path has left its start. -/
def pop (absolute : Bool) : List Name → List Name
  | [] => if absolute then [] else [dotdot]
  | top :: rest => if top = dotdot then dotdot :: top :: rest else rest

def push (absolute : Bool) (st : List Name) (c : Name) : List Name :=
  if c = dot then st else if c = dotdot then pop absolute st else c :: st

/-- What a path denotes: whether it starts at the root, and the pieces left of it. -/
structure Location where
  absolute : Bool
  names : List Name
  deriving DecidableEq

def isAbsolute (s : List UInt8) : Bool := s.head? = some slash

def location (s : List UInt8) : Location :=
  ⟨isAbsolute s, ((components s).foldl (push (isAbsolute s)) []).reverse⟩

/-- `path` denotes the location of `base` or one reached from it by going down only. -/
def Inside (base path : List UInt8) : Prop :=
  (location path).absolute = (location base).absolute ∧
    ∃ below, (location path).names = (location base).names ++ below ∧ dotdot ∉ below

/-- Whether the pieces, followed from depth `d`, ever go above depth zero. -/
def climbs (d : Nat) : List Name → Bool
  | [] => false
  | c :: cs =>
    if c = dot then climbs d cs
    else if c = dotdot then d = 0 || climbs (d - 1) cs
    else climbs (d + 1) cs

theorem not_climbs_of_le {cs : List Name} {d d' : Nat} (hle : d ≤ d') (h : climbs d cs = false) :
    climbs d' cs = false := by
  induction cs generalizing d d' with
  | nil => rfl
  | cons c cs ih =>
    rw [climbs] at h ⊢
    split at h
    · rename_i hdot
      rw [if_pos hdot]
      exact ih hle h
    · rename_i hdot
      rw [if_neg hdot]
      split at h
      · rename_i hdd
        rw [if_pos hdd]
        simp only [Bool.or_eq_false_iff, decide_eq_false_iff_not] at h ⊢
        exact ⟨by omega, ih (by omega) h.2⟩
      · rename_i hdd
        rw [if_neg hdd]
        exact ih (by omega) h

theorem not_climbs_append {cs cs' : List Name} {d : Nat} (h : climbs d cs = false)
    (h' : climbs 0 cs' = false) : climbs d (cs ++ cs') = false := by
  induction cs generalizing d with
  | nil => exact not_climbs_of_le (Nat.zero_le d) h'
  | cons c cs ih =>
    rw [climbs] at h
    rw [List.cons_append, climbs]
    split at h
    · rename_i hdot
      rw [if_pos hdot]
      exact ih h
    · rename_i hdot
      rw [if_neg hdot]
      split at h
      · rename_i hdd
        rw [if_pos hdd]
        simp only [Bool.or_eq_false_iff] at h ⊢
        exact ⟨h.1, ih h.2⟩
      · rename_i hdd
        rw [if_neg hdd]
        exact ih h

/-- Pieces that never climb leave the stack they start on in place, and what they add to it goes
down only. -/
theorem foldl_push_of_not_climbs (absolute : Bool) (st : List Name) :
    ∀ (cs above : List Name), dotdot ∉ above → climbs above.length cs = false →
      ∃ above', cs.foldl (push absolute) (above ++ st) = above' ++ st ∧ dotdot ∉ above' := by
  intro cs
  induction cs with
  | nil => intro above ha _; exact ⟨above, rfl, ha⟩
  | cons c cs ih =>
    intro above ha hc
    rw [climbs] at hc
    rw [List.foldl_cons]
    split at hc
    · rename_i hdot
      rw [push, if_pos hdot]
      exact ih above ha hc
    · rename_i hdot
      rw [push, if_neg hdot]
      split at hc
      · rename_i hdd
        rw [if_pos hdd]
        cases above with
        | nil => simp at hc
        | cons top rest =>
          simp only [List.mem_cons, not_or] at ha
          rw [List.cons_append, pop, if_neg (fun e => ha.1 e.symm)]
          exact ih rest ha.2 (by simpa using hc)
      · rename_i hdd
        rw [if_neg hdd]
        refine ih (c :: above) ?_ (by simpa using hc)
        simp only [List.mem_cons, not_or]
        exact ⟨fun e => hdd e.symm, ha⟩

theorem inside_of_not_climbs {base path : List UInt8} {cs : List Name}
    (habs : isAbsolute path = isAbsolute base)
    (hcs : components path = components base ++ cs) (hc : climbs 0 cs = false) :
    Inside base path := by
  obtain ⟨above, hfold, hdd⟩ := foldl_push_of_not_climbs (isAbsolute base)
    ((components base).foldl (push (isAbsolute base)) []) cs [] (by simp) hc
  refine ⟨habs, above.reverse, ?_, by simpa using hdd⟩
  simp only [location, habs, hcs, List.foldl_append]
  rw [List.nil_append] at hfold
  rw [hfold, List.reverse_append]

theorem foldl_push_proper (absolute : Bool) (st : List Name) {cs : List Name}
    (h : ∀ n ∈ cs, Proper n) : cs.foldl (push absolute) st = cs.reverse ++ st := by
  induction cs generalizing st with
  | nil => rfl
  | cons c cs ih =>
    have hc := h c (by simp)
    rw [List.foldl_cons, push, if_neg hc.ne_dot, if_neg hc.ne_dotdot,
      ih (c :: st) (fun n hn => h n (by simp [hn]))]
    simp

end PathSyntax
