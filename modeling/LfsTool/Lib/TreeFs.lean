import Mathlib.Data.List.Dedup
import LfsTool.Lib.PathSyntax

/-!
# TreeFs

A plain tree file system, twice.

* `View` is what can be seen of one: the tree of nodes, the open files and the open directory
  streams. The relations `MakeDir`, `OpenWrite`, `Read`, ... say what each call may do to a view,
  whatever fails or falls short; they are all a client may rely on.
* `Disk` is an executable one. Every call takes the next `Outcome` of a script, which decides
  whether it fails, how much it transfers and in which order a directory is listed; a theorem for
  every script is a theorem for every pattern of outcomes. `makeDir_spec`, `openWrite_spec`, ...
  say that each call of a disk does what its relation allows.

A path is the list of names below the root. Handles are numbers; a call that opens something gets
one that is not in use.
-/

namespace TreeFs

open PathSyntax (Name Proper dot dotdot)

abbrev Path := List Name

inductive Node where
  | file (content : List UInt8)
  | dir
  deriving DecidableEq

abbrev Tree := Path → Option Node

def Tree.set (t : Tree) (p : Path) (n : Node) : Tree := fun q => if q = p then some n else t q

@[simp] theorem Tree.set_self (t : Tree) (p : Path) (n : Node) : t.set p n p = some n :=
  if_pos rfl

theorem Tree.set_of_ne (t : Tree) {p q : Path} (n : Node) (h : q ≠ p) : t.set p n q = t q :=
  if_neg h

/-- The directory a path lies in exists. -/
def ParentDir (t : Tree) (p : Path) : Prop := ∀ q n, p = q ++ [n] → t q = some .dir

/-- `.` or `..` -/
def IsDots (n : Name) : Prop := n = dot ∨ n = dotdot

instance (n : Name) : Decidable (IsDots n) := inferInstanceAs (Decidable (_ ∨ _))

theorem not_isDots {n : Name} (h : Proper n) : ¬IsDots n :=
  fun hd => hd.elim h.ne_dot h.ne_dotdot

/-- A listing of `p`: every entry once, in any order, with `.` and `..` anywhere among them. -/
structure Listing (t : Tree) (p : Path) (names : List Name) : Prop where
  nodup : (names.filter (¬IsDots ·)).Nodup
  mem : ∀ n, ¬IsDots n → (n ∈ names ↔ t (p ++ [n]) ≠ none)

/-- An open file. -/
structure Cursor where
  path : Path
  pos : Nat
  writing : Bool
  deriving DecidableEq

/-- An open directory: the names not yet read. -/
structure Stream where
  path : Path
  rest : List Name
  deriving DecidableEq

structure View where
  tree : Tree
  file : Nat → Option Cursor
  dir : Nat → Option Stream

/-- `f'` is `f` with the value at `k` replaced by `v`. -/
structure Updated {α : Type} (f : Nat → α) (k : Nat) (v : α) (f' : Nat → α) : Prop where
  at_key : f' k = v
  elsewhere : ∀ k', k' ≠ k → f' k' = f k'

/-! ## What a call may do -/

inductive MakeDir (v : View) (p : Path) : Bool → View → Prop where
  | fail : MakeDir v p false v
  | existing : ParentDir v.tree p → v.tree p ≠ none → MakeDir v p true v
  | made {v' : View} : ParentDir v.tree p → v.tree p = none → v'.tree = v.tree.set p .dir →
      v'.file = v.file → v'.dir = v.dir → MakeDir v p true v'

/-- Open a file for writing, created or emptied. It may fail when the file has been created. -/
inductive OpenWrite (v : View) (p : Path) : Option Nat → View → Prop where
  | fail : OpenWrite v p none v
  | created {v' : View} : ParentDir v.tree p → v.tree p = none → v'.tree = v.tree.set p (.file []) →
      v'.file = v.file → v'.dir = v.dir → OpenWrite v p none v'
  | opened {k : Nat} {v' : View} : v.file k = none → ParentDir v.tree p → v.tree p ≠ some .dir →
      v'.tree = v.tree.set p (.file []) → Updated v.file k (some ⟨p, 0, true⟩) v'.file →
      v'.dir = v.dir → OpenWrite v p (some k) v'

inductive OpenRead (v : View) (p : Path) : Option Nat → View → Prop where
  | fail : OpenRead v p none v
  | opened {k : Nat} {c : List UInt8} {v' : View} : v.file k = none → v.tree p = some (.file c) →
      v'.tree = v.tree → Updated v.file k (some ⟨p, 0, false⟩) v'.file → v'.dir = v.dir →
      OpenRead v p (some k) v'

/-- Read up to `n` bytes; `none` is an error. With `full`, fewer than asked only at the end. -/
inductive Read (full : Prop) (v : View) (k n : Nat) : Option (List UInt8) → View → Prop where
  | fail : Read full v k n none v
  | done {cur : Cursor} {c : List UInt8} {m : Nat} {v' : View} : v.file k = some cur →
      v.tree cur.path = some (.file c) → m ≤ n → m ≤ c.length - cur.pos →
      (m = 0 → n = 0 ∨ c.length ≤ cur.pos) → (full → m < n → c.length ≤ cur.pos + m) →
      v'.tree = v.tree → Updated v.file k (some { cur with pos := cur.pos + m }) v'.file →
      v'.dir = v.dir → Read full v k n (some ((c.drop cur.pos).take m)) v'

/-- Write `data` at the position of a file; a short write stores the first bytes. -/
inductive Write (v : View) (k : Nat) (data : List UInt8) : Option Nat → View → Prop where
  | fail : Write v k data none v
  | done {cur : Cursor} {c : List UInt8} {m : Nat} {v' : View} : v.file k = some cur →
      v.tree cur.path = some (.file c) → m ≤ data.length →
      v'.tree = v.tree.set cur.path
        (.file (c.take cur.pos ++ data.take m ++ c.drop (cur.pos + m))) →
      Updated v.file k (some { cur with pos := cur.pos + m }) v'.file → v'.dir = v.dir →
      Write v k data (some m) v'

/-- Close a file. When the close of a file being written fails, only the start of it may be left,
except with `durable`. -/
inductive Close (durable : Prop) (v : View) (k : Nat) : Bool → View → Prop where
  | done {ok : Bool} {v' : View} : v'.tree = v.tree → Updated v.file k none v'.file →
      v'.dir = v.dir → Close durable v k ok v'
  | lost {cur : Cursor} {c : List UInt8} {m : Nat} {v' : View} : ¬durable → v.file k = some cur →
      cur.writing = true → v.tree cur.path = some (.file c) →
      v'.tree = v.tree.set cur.path (.file (c.take m)) → Updated v.file k none v'.file →
      v'.dir = v.dir → Close durable v k false v'

inductive OpenDir (v : View) (p : Path) : Option Nat → View → Prop where
  | fail : OpenDir v p none v
  | opened {k : Nat} {names : List Name} {v' : View} : v.dir k = none → v.tree p = some .dir →
      Listing v.tree p names → v'.tree = v.tree → v'.file = v.file →
      Updated v.dir k (some ⟨p, names⟩) v'.dir → OpenDir v p (some k) v'

/-- What reading a directory stream yields. -/
inductive DirItem where
  | error
  | finished
  | item (name : Name)
  deriving DecidableEq

inductive ReadDir (v : View) (k : Nat) : DirItem → View → Prop where
  | fail {v' : View} : v'.tree = v.tree → v'.file = v.file → (∀ k', k' ≠ k → v'.dir k' = v.dir k') →
      ReadDir v k .error v'
  | finished {p : Path} {v' : View} : v.dir k = some ⟨p, []⟩ → v'.tree = v.tree →
      v'.file = v.file → Updated v.dir k (some ⟨p, []⟩) v'.dir → ReadDir v k .finished v'
  | item {p : Path} {n : Name} {rest : List Name} {v' : View} : v.dir k = some ⟨p, n :: rest⟩ →
      v'.tree = v.tree → v'.file = v.file → Updated v.dir k (some ⟨p, rest⟩) v'.dir →
      ReadDir v k (.item n) v'

/-- Close a directory stream. -/
structure CloseDir (v : View) (k : Nat) (v' : View) : Prop where
  tree : v'.tree = v.tree
  file : v'.file = v.file
  dir : Updated v.dir k none v'.dir

theorem OpenWrite.failed {v v' : View} {p : Path} (h : OpenWrite v p none v') :
    v'.tree = v.tree ∨ v'.tree = v.tree.set p (.file []) := by
  cases h with
  | fail => exact .inl rfl
  | created _ _ htree _ _ => exact .inr htree

theorem OpenRead.failed {v v' : View} {p : Path} (h : OpenRead v p none v') : v' = v := by
  cases h
  rfl

theorem OpenDir.failed {v v' : View} {p : Path} (h : OpenDir v p none v') : v' = v := by
  cases h
  rfl

/-! ## An executable file system -/

/-- Bindings of paths to nodes; an earlier one hides a later one. -/
abbrev Fs := List (Path × Node)

def Fs.get : Fs → Tree
  | [], _ => none
  | (q, n) :: fs, p => if p = q then some n else Fs.get fs p

def Fs.set (fs : Fs) (p : Path) (n : Node) : Fs := (p, n) :: fs

theorem Fs.get_set (fs : Fs) (p : Path) (n : Node) : (fs.set p n).get = fs.get.set p n := rfl

theorem Fs.get_ne_none {fs : Fs} {p : Path} : fs.get p ≠ none ↔ p ∈ fs.map Prod.fst := by
  induction fs with
  | nil => simp [Fs.get]
  | cons b fs ih =>
    obtain ⟨q, n⟩ := b
    rw [Fs.get]
    by_cases h : p = q
    · simp [h]
    · rw [if_neg h, ih, List.map_cons, List.mem_cons]
      exact ⟨.inr, fun hm => hm.resolve_left h⟩

/-- The entries of a directory, each once. -/
def Fs.children (fs : Fs) (p : Path) : List Name :=
  ((fs.map Prod.fst).filterMap fun q => if q.dropLast = p then q.getLast? else none).dedup

theorem Fs.mem_children {fs : Fs} {p : Path} {n : Name} :
    n ∈ fs.children p ↔ fs.get (p ++ [n]) ≠ none := by
  rw [Fs.get_ne_none, Fs.children, List.mem_dedup, List.mem_filterMap]
  constructor
  · rintro ⟨q, hq, he⟩
    split at he
    · rename_i hp
      obtain ⟨r, rfl⟩ := List.getLast?_eq_some_iff.mp he
      rwa [← hp, List.dropLast_concat]
    · cases he
  · intro h
    exact ⟨p ++ [n], h, by simp⟩

/-- What the world decides about one call. -/
structure Outcome where
  /-- the call succeeds -/
  ok : Bool
  /-- a close reports success -/
  closes : Bool
  /-- what a failing close leaves of a file being written, if not all of it -/
  kept : Option Nat
  /-- the most bytes a read or a write transfers -/
  limit : Option Nat
  /-- the handle of what is opened -/
  handle : Nat
  /-- the listing of a directory that is opened, if it is one -/
  listing : List Name
  /-- an open that fails has created the file -/
  creates : Bool

namespace Outcome

/-- How many of `n` bytes a read transfers: within the limit, but not nothing. -/
def transfer (o : Outcome) (n : Nat) : Nat :=
  match o.limit with
  | none => n
  | some m => min n (max 1 m)

/-- How many of `n` bytes a write stores. -/
def stored (o : Outcome) (n : Nat) : Nat :=
  match o.limit with
  | none => n
  | some m => min n m

theorem transfer_le (o : Outcome) (n : Nat) : o.transfer n ≤ n := by
  unfold transfer
  split <;> omega

theorem transfer_pos (o : Outcome) {n : Nat} (h : 0 < n) : 0 < o.transfer n := by
  unfold transfer
  split <;> omega

theorem stored_le (o : Outcome) (n : Nat) : o.stored n ≤ n := by
  unfold stored
  split <;> omega

theorem transfer_of_no_limit {o : Outcome} (h : o.limit = none) (n : Nat) : o.transfer n = n := by
  simp [transfer, h]

end Outcome

/-- The outcomes of all calls, in the order they are made. -/
abbrev Script := Nat → Outcome

/-- No read ends before it has to. -/
def Script.FullReads (sc : Script) : Prop := ∀ i, (sc i).limit = none

def Script.SureCloses (sc : Script) : Prop := ∀ i, (sc i).closes = true

/-- No close loses data. -/
def Script.Durable (sc : Script) : Prop := ∀ i, (sc i).closes = true ∨ (sc i).kept = none

theorem Script.SureCloses.durable {sc : Script} (h : sc.SureCloses) : sc.Durable :=
  fun i => .inl (h i)

def Script.calm : Script := fun i => ⟨true, true, none, none, i, [], false⟩

theorem Script.calm_fullReads : Script.calm.FullReads := fun _ => rfl
theorem Script.calm_sureCloses : Script.calm.SureCloses := fun _ => rfl

structure Disk where
  fs : Fs
  file : Nat → Option Cursor
  dir : Nat → Option Stream
  tick : Nat

namespace Disk

def idle (fs : Fs) : Disk := ⟨fs, fun _ => none, fun _ => none, 0⟩

def view (d : Disk) : View := ⟨d.fs.get, d.file, d.dir⟩

/-- The disk once the outcome of a call has been taken from the script. -/
def step (d : Disk) : Disk := { d with tick := d.tick + 1 }

def setFile (d : Disk) (k : Nat) (c : Option Cursor) : Disk :=
  { d with file := fun k' => if k' = k then c else d.file k' }

def setDir (d : Disk) (k : Nat) (s : Option Stream) : Disk :=
  { d with dir := fun k' => if k' = k then s else d.dir k' }

def setNode (d : Disk) (p : Path) (n : Node) : Disk := { d with fs := d.fs.set p n }

theorem setFile_updated (d : Disk) (k : Nat) (c : Option Cursor) :
    Updated d.file k c (d.setFile k c).file :=
  ⟨if_pos rfl, fun _ h => if_neg h⟩

theorem setDir_updated (d : Disk) (k : Nat) (s : Option Stream) :
    Updated d.dir k s (d.setDir k s).dir :=
  ⟨if_pos rfl, fun _ h => if_neg h⟩

/-- The directory a path lies in exists. -/
def parentDir (d : Disk) (p : Path) : Bool := p = [] || d.fs.get p.dropLast = some .dir

theorem parentDir_iff {d : Disk} {p : Path} (h : d.parentDir p = true) :
    ParentDir d.view.tree p := by
  rintro q n rfl
  simpa [parentDir, view] using h

inductive MakeDirResult where
  | made
  | existing
  | fail
  deriving DecidableEq

def makeDir (sc : Script) (d : Disk) (p : Path) : MakeDirResult × Disk :=
  if !((sc d.tick).ok && d.parentDir p) then (.fail, d.step)
  else
    match d.fs.get p with
    | some _ => (.existing, d.step)
    | none => (.made, d.step.setNode p .dir)

/-- What an open for writing leaves that fails. -/
def create (sc : Script) (d : Disk) (p : Path) : Disk :=
  if (sc d.tick).creates && d.parentDir p && (d.fs.get p).isNone then d.step.setNode p (.file [])
  else d.step

/-- Open a file under the handle `k`: for writing, created or emptied. -/
def openWrite (sc : Script) (d : Disk) (k : Nat) (p : Path) : Bool × Disk :=
  if !((sc d.tick).ok && d.parentDir p && (d.file k).isNone) then (false, d.create sc p)
  else
    match d.fs.get p with
    | some .dir => (false, d.step)
    | _ => (true, (d.step.setNode p (.file [])).setFile k (some ⟨p, 0, true⟩))

def openRead (sc : Script) (d : Disk) (k : Nat) (p : Path) : Bool × Disk :=
  if !((sc d.tick).ok && (d.file k).isNone) then (false, d.step)
  else
    match d.fs.get p with
    | some (.file _) => (true, d.step.setFile k (some ⟨p, 0, false⟩))
    | _ => (false, d.step)

def read (sc : Script) (d : Disk) (k n : Nat) : Option (List UInt8) × Disk :=
  match d.file k with
  | none => (none, d.step)
  | some cur =>
    match d.fs.get cur.path with
    | some (.file c) =>
      if !(sc d.tick).ok then (none, d.step)
      else
        let m := (sc d.tick).transfer (min n (c.length - cur.pos))
        (some ((c.drop cur.pos).take m),
          d.step.setFile k (some { cur with pos := cur.pos + m }))
    | _ => (none, d.step)

def write (sc : Script) (d : Disk) (k : Nat) (data : List UInt8) : Option Nat × Disk :=
  match d.file k with
  | none => (none, d.step)
  | some cur =>
    match d.fs.get cur.path with
    | some (.file c) =>
      if !(sc d.tick).ok then (none, d.step)
      else
        let m := (sc d.tick).stored data.length
        let c' := c.take cur.pos ++ data.take m ++ c.drop (cur.pos + m)
        (some m, (d.step.setNode cur.path (.file c')).setFile k
          (some { cur with pos := cur.pos + m }))
    | _ => (none, d.step)

/-- What is left on the disk of the file of a handle whose close failed. -/
def keep (sc : Script) (d : Disk) (k : Nat) : Disk :=
  match (sc d.tick).kept, d.file k with
  | some m, some cur =>
    match d.fs.get cur.path with
    | some (.file c) => if cur.writing then d.setNode cur.path (.file (c.take m)) else d
    | _ => d
  | _, _ => d

def close (sc : Script) (d : Disk) (k : Nat) : Bool × Disk :=
  if (sc d.tick).closes then (true, d.step.setFile k none)
  else (false, (d.keep sc k).step.setFile k none)

/-- Whether `names` lists the directory `p`. -/
def isListing (d : Disk) (p : Path) (names : List Name) : Bool :=
  (names.filter (¬IsDots ·)).isPerm ((d.fs.children p).filter (¬IsDots ·))

def openDir (sc : Script) (d : Disk) (k : Nat) (p : Path) : Bool × Disk :=
  if !((sc d.tick).ok && (d.dir k).isNone) then (false, d.step)
  else
    match d.fs.get p with
    | some .dir =>
      let names :=
        if d.isListing p (sc d.tick).listing then (sc d.tick).listing
        else dot :: dotdot :: d.fs.children p
      (true, d.step.setDir k (some ⟨p, names⟩))
    | _ => (false, d.step)

def readDir (sc : Script) (d : Disk) (k : Nat) : DirItem × Disk :=
  if !(sc d.tick).ok then (.error, d.step)
  else
    match d.dir k with
    | none => (.error, d.step)
    | some ⟨p, []⟩ => (.finished, d.step.setDir k (some ⟨p, []⟩))
    | some ⟨p, n :: rest⟩ => (.item n, d.step.setDir k (some ⟨p, rest⟩))

def closeDir (sc : Script) (d : Disk) (k : Nat) : Bool × Disk := ((sc d.tick).closes, d.step.setDir k none)

def look (sc : Script) (d : Disk) (p : Path) : Option Node × Disk :=
  (if (sc d.tick).ok then d.fs.get p else none, d.step)

/-! ## Each call does what its relation allows -/

theorem makeDir_spec (sc : Script) (d : Disk) (p : Path) :
    MakeDir d.view p ((d.makeDir sc p).1 ≠ .fail) (d.makeDir sc p).2.view := by
  unfold makeDir
  split
  · exact .fail
  · rename_i h
    simp only [Bool.not_eq_true', Bool.and_eq_true, Bool.not_eq_false] at h
    have hp := parentDir_iff h.2
    split
    · rename_i hget
      exact .existing hp (by simp [view, hget])
    · rename_i hget
      exact .made hp hget (Fs.get_set _ _ _) rfl rfl

theorem openWrite_spec (sc : Script) (d : Disk) (k : Nat) (p : Path) :
    OpenWrite d.view p (if (d.openWrite sc k p).1 then some k else none) (d.openWrite sc k p).2.view := by
  unfold openWrite
  split
  · unfold create
    split
    · rename_i h
      simp only [Bool.and_eq_true, Option.isNone_iff_eq_none] at h
      exact .created (parentDir_iff h.1.2) h.2 (Fs.get_set _ _ _) rfl rfl
    · exact .fail
  · rename_i h
    simp only [Bool.not_eq_true', Bool.and_eq_true, Bool.not_eq_false,
      Option.isNone_iff_eq_none] at h
    split
    · exact .fail
    · rename_i hget
      exact .opened h.2 (parentDir_iff h.1.2) hget (Fs.get_set _ _ _)
        (setFile_updated _ _ _) rfl

theorem openRead_spec (sc : Script) (d : Disk) (k : Nat) (p : Path) :
    OpenRead d.view p (if (d.openRead sc k p).1 then some k else none) (d.openRead sc k p).2.view := by
  unfold openRead
  split
  · exact .fail
  · rename_i h
    simp only [Bool.not_eq_true', Bool.and_eq_true, Bool.not_eq_false,
      Option.isNone_iff_eq_none] at h
    split
    · rename_i c hget
      exact .opened h.2 hget rfl (setFile_updated _ _ _) rfl
    · exact .fail

theorem read_spec (sc : Script) (d : Disk) (k n : Nat) :
    Read sc.FullReads d.view k n (d.read sc k n).1 (d.read sc k n).2.view := by
  unfold read
  split
  · exact .fail
  · rename_i cur hcur
    split
    · rename_i c hget
      split
      · exact .fail
      · have hle := (sc d.tick).transfer_le (min n (c.length - cur.pos))
        refine .done hcur hget (by omega) (by omega) ?_ ?_ rfl (setFile_updated _ _ _) rfl
        · intro h0
          by_contra hcon
          have := (sc d.tick).transfer_pos (n := min n (c.length - cur.pos)) (by omega)
          omega
        · intro hfull hlt
          rw [(sc d.tick).transfer_of_no_limit (hfull d.tick)] at hlt ⊢
          omega
    · exact .fail

/-- How much a read that succeeds returns. -/
theorem read_some {sc : Script} {d : Disk} {k n : Nat} {cur : Cursor} {c data : List UInt8}
    (hcur : d.file k = some cur) (hget : d.fs.get cur.path = some (.file c))
    (h : (d.read sc k n).1 = some data) :
    data.length = (sc d.tick).transfer (min n (c.length - cur.pos)) := by
  have hle := (sc d.tick).transfer_le (min n (c.length - cur.pos))
  simp only [read, hcur, hget] at h
  split at h
  · cases h
  · cases h
    rw [List.length_take, List.length_drop]
    omega

theorem read_tick (sc : Script) (d : Disk) (k n : Nat) : (d.read sc k n).2.tick = d.tick + 1 := by
  unfold read
  split
  · rfl
  · split
    · split <;> rfl
    · rfl

theorem openRead_tick (sc : Script) (d : Disk) (k : Nat) (p : Path) :
    (d.openRead sc k p).2.tick = d.tick + 1 := by
  unfold openRead
  split
  · rfl
  · split <;> rfl

theorem write_spec (sc : Script) (d : Disk) (k : Nat) (data : List UInt8) :
    Write d.view k data (d.write sc k data).1 (d.write sc k data).2.view := by
  unfold write
  split
  · exact .fail
  · rename_i cur hcur
    split
    · rename_i c hget
      split
      · exact .fail
      · exact .done hcur hget ((sc d.tick).stored_le _) (Fs.get_set _ _ _)
          (setFile_updated _ _ _) rfl
    · exact .fail

/-- What a failing close keeps of the tree: all of it, or only the start of the file being
written. -/
theorem keep_cases (sc : Script) (d : Disk) (k : Nat) :
    d.keep sc k = d ∨ (sc d.tick).kept ≠ none ∧ ∃ cur c m, d.file k = some cur ∧
      cur.writing = true ∧ d.fs.get cur.path = some (.file c) ∧
      d.keep sc k = d.setNode cur.path (.file (c.take m)) := by
  unfold keep
  split
  · rename_i m cur hkept hcur
    split
    · rename_i c hget
      split
      · rename_i hw
        exact .inr ⟨by rw [hkept]; simp, cur, c, m, hcur, hw, hget, rfl⟩
      · exact .inl rfl
    · exact .inl rfl
  · exact .inl rfl

theorem close_spec (sc : Script) (d : Disk) (k : Nat) :
    Close sc.Durable d.view k (d.close sc k).1 (d.close sc k).2.view := by
  unfold close
  split
  · exact .done rfl (setFile_updated _ _ _) rfl
  · rename_i h
    rcases keep_cases sc d k with hk | ⟨hkept, cur, c, m, hcur, hw, hget, hk⟩
    · rw [hk]
      exact .done rfl (setFile_updated _ _ _) rfl
    · rw [hk]
      have hlost : ¬sc.Durable := fun hd => (hd d.tick).elim h hkept
      exact .lost hlost hcur hw hget (Fs.get_set _ _ _) (setFile_updated _ _ _) rfl

/-- The listing a disk makes up lists the directory, and so does one it accepts. -/
theorem isListing_spec {d : Disk} {p : Path} {names : List Name} (h : d.isListing p names = true) :
    Listing d.view.tree p names := by
  have hperm := List.isPerm_iff.mp h
  refine ⟨hperm.nodup_iff.mpr ((List.nodup_dedup _).filter _), ?_⟩
  intro n hn
  have hmem := hperm.mem_iff (a := n)
  simp only [List.mem_filter, hn, not_false_eq_true, decide_true, and_true] at hmem
  exact hmem.trans Fs.mem_children

theorem isListing_children (d : Disk) (p : Path) :
    d.isListing p (dot :: dotdot :: d.fs.children p) = true := by
  simp [isListing, IsDots, List.isPerm_iff]

theorem openDir_spec (sc : Script) (d : Disk) (k : Nat) (p : Path) :
    OpenDir d.view p (if (d.openDir sc k p).1 then some k else none) (d.openDir sc k p).2.view := by
  unfold openDir
  split
  · exact .fail
  · rename_i h
    simp only [Bool.not_eq_true', Bool.and_eq_true, Bool.not_eq_false,
      Option.isNone_iff_eq_none] at h
    split
    · rename_i hget
      refine .opened h.2 hget ?_ rfl rfl (setDir_updated _ _ _)
      split
      · rename_i hl
        exact isListing_spec hl
      · exact isListing_spec (isListing_children d p)
    · exact .fail

theorem readDir_spec (sc : Script) (d : Disk) (k : Nat) :
    ReadDir d.view k (d.readDir sc k).1 (d.readDir sc k).2.view := by
  unfold readDir
  split
  · exact .fail rfl rfl (fun _ _ => rfl)
  · split
    · exact .fail rfl rfl (fun _ _ => rfl)
    · rename_i hdir
      exact .finished hdir rfl rfl (setDir_updated _ _ _)
    · rename_i hdir
      exact .item hdir rfl rfl (setDir_updated _ _ _)

theorem closeDir_spec (sc : Script) (d : Disk) (k : Nat) : CloseDir d.view k (d.closeDir sc k).2.view :=
  ⟨rfl, rfl, setDir_updated _ _ _⟩

end Disk

end TreeFs
