import LfsTool.CtzExtend
import LfsTool.Lib.Lookahead

/-!
# LfsTool.Alloc

The block allocator of littlefs. It has no list of free blocks: `lfs_fs_traverse` reports the blocks in
use, and the ones in a window are marked in a bitmap. Blocks that were handed out and are not part of
the tree yet are kept apart by `ack`, the number of blocks that may still be looked at.

* `lfsAllocLookahead`, `lfsAlloc`, `lfsAllocAck`, over a function for the traversal.
* `AllocInv`: what window, bitmap and `ack` promise about the blocks ahead.
* `Allocates`: the runs of a client that makes its blocks part of the tree before an `ack`.
  `lfsAlloc_not_busy`: none of them gets a block that is in use. `lfsAlloc_full`: an error is for want
  of a block that has not been in use. `lfsAlloc_total`: the loop ends.
* `lfsAlloc_after_error`: a traversal that fails leaves a window behind that the next call trusts.
-/

namespace LfsTool

open Lookahead

structure Free where
  off : UInt32
  size : UInt32
  i : UInt32
  ack : UInt32
  buffer : List UInt32

section Alloc

variable {τ : Type} (c : LfsConfig)

def lfsAllocLookahead (free : Free) (block : UInt32) : Free :=
  let off := ((block - free.off) + c.blockCount) % c.blockCount
  if off < free.size then { free with buffer := set free.buffer off.toNat } else free

/-- Looks for a block that is not marked, up to the end of the window. -/
def allocFind : Nat → Free → Option UInt32 × Free
  | k, free =>
    if free.i = free.size then (none, free)
    else
      match k with
      | 0 => (none, free)
      | k + 1 =>
        let off := free.i
        let free := { free with i := free.i + 1, ack := free.ack - 1 }
        if test free.buffer off.toNat then allocFind k free else (some off, free)

/-- Eagerly finds the next offset. -/
def allocSkip : Nat → Free → Free
  | k, free =>
    if free.i ≠ free.size ∧ test free.buffer free.i.toNat then
      match k with
      | 0 => free
      | k + 1 => allocSkip k { free with i := free.i + 1, ack := free.ack - 1 }
    else free

def nextWindow (free : Free) : Free where
  off := (free.off + free.size) % c.blockCount
  size := lfsMin (8 * c.lookaheadSize) free.ack
  i := 0
  ack := free.ack
  buffer := List.replicate (c.lookaheadSize / 4).toNat 0

/-- `traverse` has the blocks reported and the result. -/
def lfsAlloc (traverse : τ → (List UInt32 × Int) × τ) :
    Nat → Free → τ → Option (Except Int UInt32 × Free × τ)
  | fuel, free, t =>
    match allocFind (free.size - free.i).toNat free with
    | (some off, free) =>
      some (.ok ((free.off + off) % c.blockCount), allocSkip (free.size - free.i).toNat free, t)
    | (none, free) =>
      -- check if we have looked at all blocks since last ack
      if free.ack = 0 then some (.error LFS_ERR_NOSPC, free, t)
      else
        let ((blocks, err), t) := traverse t
        let free := blocks.foldl (lfsAllocLookahead c) (nextWindow c free)
        if err ≠ 0 then some (.error err, free, t)
        else
          match fuel with
          | 0 => none
          | fuel + 1 => lfsAlloc traverse fuel free t

def lfsAllocAck (free : Free) : Free := { free with ack := c.blockCount }

end Alloc

/-! ## The window -/

def Free.cur (c : LfsConfig) (free : Free) : Nat :=
  (free.off.toNat + free.i.toNat) % c.blockCount.toNat

/-- The numbers of an allocator. -/
structure Free.Sized (c : LfsConfig) (free : Free) : Prop where
  bits : free.size.toNat ≤ 32 * free.buffer.length
  i_le : free.i.toNat ≤ free.size.toNat
  size_le : free.size.toNat ≤ c.blockCount.toNat
  left_le : free.size.toNat - free.i.toNat ≤ free.ack.toNat
  ack_le : free.ack.toNat ≤ c.blockCount.toNat
  off_lt : free.size ≠ 0 → free.off.toNat < c.blockCount.toNat

/-- The blocks that are `busy` are marked as far as the window goes, and the blocks that are `pending`
are not reached by the next `ack` ones. Blocks that are marked or passed have been in use `ever`. -/
structure AllocInv (c : LfsConfig) (busy pending ever : Nat → Prop) (free : Free) : Prop
    extends free.Sized c where
  marked : ∀ b < c.blockCount.toNat, busy b →
    ahead c.blockCount.toNat (free.cur c) b < free.size.toNat - free.i.toNat →
    test free.buffer (free.i.toNat + ahead c.blockCount.toNat (free.cur c) b) = true
  passed : ∀ b < c.blockCount.toNat, pending b →
    free.ack.toNat ≤ ahead c.blockCount.toNat (free.cur c) b
  marks : ∀ b < c.blockCount.toNat,
    ahead c.blockCount.toNat (free.cur c) b < free.size.toNat - free.i.toNat →
    test free.buffer (free.i.toNat + ahead c.blockCount.toNat (free.cur c) b) = true → ever b
  seen : ∀ b < c.blockCount.toNat, free.ack.toNat ≤ ahead c.blockCount.toNat (free.cur c) b → ever b

section Window

variable {c : LfsConfig} {busy pending ever : Nat → Prop} {free : Free}

def Free.next (free : Free) : Free := { free with i := free.i + 1, ack := free.ack - 1 }

theorem Free.Sized.next_toNat (h : free.Sized c) (hne : free.i ≠ free.size) :
    free.i.toNat < free.size.toNat ∧ free.next.i.toNat = free.i.toNat + 1 ∧
      free.next.ack.toNat = free.ack.toNat - 1 ∧ 0 < free.ack.toNat := by
  have hlt : free.i.toNat < free.size.toNat :=
    Nat.lt_of_le_of_ne h.i_le fun heq => hne (UInt32.toNat_inj.mp heq)
  have hsize := free.size.toNat_lt
  have hleft := h.left_le
  refine ⟨hlt, ?_, ?_, by omega⟩
  · show (free.i + 1).toNat = _
    rw [UInt32.toNat_add]
    exact Nat.mod_eq_of_lt (by show _ + 1 < _; omega)
  · exact UInt32.toNat_sub_of_le _ _ (UInt32.le_iff_toNat_le.mpr (by show 1 ≤ _; omega))

theorem Free.Sized.next (h : free.Sized c) (hne : free.i ≠ free.size) : free.next.Sized c := by
  obtain ⟨hlt, hi, hack, hpos⟩ := h.next_toNat hne
  obtain ⟨hbits, hile, hsize, hleft, hackle, hoff⟩ := h
  refine ⟨hbits, ?_, hsize, ?_, by omega, hoff⟩
  · rw [hi]
    exact hlt
  · show free.size.toNat - _ ≤ _
    omega

theorem Free.Sized.cur_lt (h : free.Sized c) (hne : free.i ≠ free.size) :
    free.cur c < c.blockCount.toNat := by
  have := h.next_toNat hne
  have := h.size_le
  exact Nat.mod_lt _ (by omega)

theorem Free.Sized.next_cur (h : free.Sized c) (hne : free.i ≠ free.size) :
    free.next.cur c = (free.cur c + 1) % c.blockCount.toNat := by
  obtain ⟨-, hi, -⟩ := h.next_toNat hne
  rw [Free.cur, hi, Free.cur, Nat.mod_add_mod, Nat.add_assoc]
  rfl

theorem Free.Sized.next_ahead (h : free.Sized c) (hne : free.i ≠ free.size) {b : Nat}
    (hb : b < c.blockCount.toNat) :
    b = free.cur c ∧ ahead c.blockCount.toNat (free.next.cur c) b = c.blockCount.toNat - 1 ∨
      1 ≤ ahead c.blockCount.toNat (free.cur c) b ∧
        ahead c.blockCount.toNat (free.next.cur c) b =
          ahead c.blockCount.toNat (free.cur c) b - 1 := by
  have hcur := h.cur_lt hne
  rw [h.next_cur hne]
  by_cases heq : b = free.cur c
  · subst heq
    exact .inl ⟨rfl, ahead_passed hcur⟩
  · have hpos : 1 ≤ ahead c.blockCount.toNat (free.cur c) b := by
      by_contra hz
      have hself := add_ahead hcur hb
      rw [show ahead c.blockCount.toNat (free.cur c) b = 0 by omega, Nat.add_zero,
        Nat.mod_eq_of_lt hcur] at hself
      exact heq hself.symm
    exact .inr ⟨hpos, ahead_sub hcur hb hpos⟩

theorem AllocInv.next (h : AllocInv c busy pending ever free) (hne : free.i ≠ free.size)
    {busy' pending' ever' : Nat → Prop} (hbusy : ∀ b, busy' b → busy b ∨ b = free.cur c)
    (hpending : ∀ b, pending' b → pending b ∨ b = free.cur c) (hever : ∀ b, ever b → ever' b)
    (hcur : ever' (free.cur c)) : AllocInv c busy' pending' ever' free.next := by
  obtain ⟨hlt, hi, hack, hpos⟩ := h.next_toNat hne
  have hsize := h.size_le
  have hackle := h.ack_le
  refine { h.toSized.next hne with marked := ?_, passed := ?_, marks := ?_, seen := ?_ }
  · intro b hb hbusy' hin
    change _ < free.size.toNat - _ at hin
    show test free.buffer _ = true
    rcases h.next_ahead hne hb with ⟨-, hlast⟩ | ⟨hone, hsub⟩
    · omega
    · rcases hbusy b hbusy' with hb' | rfl
      · have := h.marked b hb hb' (by omega)
        rwa [hi, hsub, show free.i.toNat + 1 + (ahead c.blockCount.toNat (free.cur c) b - 1) =
          free.i.toNat + ahead c.blockCount.toNat (free.cur c) b by omega]
      · rw [ahead_self] at hone
        omega
  · intro b hb hpending'
    rcases h.next_ahead hne hb with ⟨-, hlast⟩ | ⟨hone, hsub⟩
    · omega
    · rcases hpending b hpending' with hb' | rfl
      · have := h.passed b hb hb'
        omega
      · rw [ahead_self] at hone
        omega
  · intro b hb hin htest
    change _ < free.size.toNat - _ at hin
    change test free.buffer _ = true at htest
    rcases h.next_ahead hne hb with ⟨-, hlast⟩ | ⟨hone, hsub⟩
    · omega
    · refine hever b (h.marks b hb (by omega) ?_)
      rwa [hi, hsub, show free.i.toNat + 1 + (ahead c.blockCount.toNat (free.cur c) b - 1) =
        free.i.toNat + ahead c.blockCount.toNat (free.cur c) b by omega] at htest
  · intro b hb hle
    rcases h.next_ahead hne hb with ⟨rfl, -⟩ | ⟨hone, hsub⟩
    · exact hcur
    · exact hever b (h.seen b hb (by omega))

theorem AllocInv.block_eq (h : AllocInv c busy pending ever free)
    (hcount : c.blockCount.toNat ≤ 2 ^ 31) (hne : free.i ≠ free.size) :
    ((free.off + free.i) % c.blockCount).toNat = free.cur c := by
  obtain ⟨hlt, -⟩ := h.next_toNat hne
  have hoff := h.off_lt (toNat_ne_zero.mpr (by omega))
  have hsize := h.size_le
  rw [UInt32.toNat_mod, UInt32.toNat_add, Free.cur]
  congr 1
  exact Nat.mod_eq_of_lt (by omega)

theorem AllocInv.mark (h : AllocInv c busy pending ever free) (hne : free.i ≠ free.size) :
    (busy (free.cur c) → test free.buffer free.i.toNat = true) ∧
      (test free.buffer free.i.toNat = true → ever (free.cur c)) := by
  have hcur := h.cur_lt hne
  obtain ⟨hlt, -⟩ := h.next_toNat hne
  constructor
  · intro hbusy
    have := h.marked _ hcur hbusy (by rw [ahead_self]; omega)
    rwa [ahead_self, Nat.add_zero] at this
  · intro htest
    refine h.marks _ hcur (by rw [ahead_self]; omega) ?_
    rwa [ahead_self, Nat.add_zero]

/-- What a call does to the sets: one more block is in use and not yet part of the tree. -/
def With (p : Nat → Prop) (b : Nat) (x : Nat) : Prop := p x ∨ x = b

theorem allocFind_spec (hcount : c.blockCount.toNat ≤ 2 ^ 31) {k : Nat}
    (h : AllocInv c busy pending ever free) (hk : free.size.toNat - free.i.toNat ≤ k) :
    (∃ off free', allocFind k free = (some off, free') ∧
      ((free'.off + off) % c.blockCount).toNat < c.blockCount.toNat ∧
      ¬busy ((free'.off + off) % c.blockCount).toNat ∧
      AllocInv c (With busy ((free'.off + off) % c.blockCount).toNat)
        (With pending ((free'.off + off) % c.blockCount).toNat)
        (With ever ((free'.off + off) % c.blockCount).toNat) free') ∨
    ∃ free', allocFind k free = (none, free') ∧ free'.i = free'.size ∧
      AllocInv c busy pending ever free' := by
  induction k generalizing free with
  | zero =>
    have hend : free.i = free.size :=
      UInt32.toNat_inj.mp (Nat.le_antisymm h.i_le (Nat.le_of_sub_eq_zero (Nat.le_zero.mp hk)))
    rw [allocFind, if_pos hend]
    exact .inr ⟨free, rfl, hend, h⟩
  | succ k ih =>
    by_cases hend : free.i = free.size
    · rw [allocFind, if_pos hend]
      exact .inr ⟨free, rfl, hend, h⟩
    · have hblock := h.block_eq hcount hend
      obtain ⟨hlt, hi, -⟩ := h.next_toNat hend
      rw [allocFind, if_neg hend]
      simp only
      cases htest : test free.buffer free.i.toNat with
      | true =>
        simp only [if_true]
        have hnext : AllocInv c busy pending ever free.next := h.next hend (fun _ => .inl)
          (fun _ => .inl) (fun _ => id) ((h.mark hend).2 htest)
        have hleft : free.next.size.toNat - free.next.i.toNat ≤ k := by
          rw [hi]
          show free.size.toNat - _ ≤ _
          omega
        exact ih hnext hleft
      | false =>
        refine .inl ⟨free.i, free.next, rfl, ?_⟩
        show ((free.off + free.i) % c.blockCount).toNat < _ ∧ _
        rw [show free.next.off = free.off from rfl, hblock]
        refine ⟨h.cur_lt hend, fun hbusy => ?_,
          h.next hend (fun _ => id) (fun _ => id) (fun _ => .inl) (.inr rfl)⟩
        rw [(h.mark hend).1 hbusy] at htest
        cases htest

theorem allocFind_first (h : free.Sized c) {k d : Nat} (hk : d < k)
    (hd : free.i.toNat + d < free.size.toNat)
    (hmarked : ∀ j < d, test free.buffer (free.i.toNat + j) = true)
    (hclear : test free.buffer (free.i.toNat + d) = false) :
    ∃ off free', allocFind k free = (some off, free') ∧ off.toNat = free.i.toNat + d ∧
      free'.off = free.off := by
  induction k generalizing free d with
  | zero => exact absurd hk (Nat.not_lt_zero d)
  | succ k ih =>
    have hne : free.i ≠ free.size := by
      intro heq
      rw [heq] at hd
      omega
    obtain ⟨-, hi, -⟩ := h.next_toNat hne
    rw [allocFind, if_neg hne]
    simp only
    cases d with
    | zero =>
      rw [Nat.add_zero] at hclear
      rw [hclear]
      exact ⟨_, _, rfl, rfl, rfl⟩
    | succ d =>
      have hone := hmarked 0 (Nat.succ_pos d)
      rw [Nat.add_zero] at hone
      rw [if_pos hone]
      have hmarked' : ∀ j < d, test free.next.buffer (free.next.i.toNat + j) = true := fun j hj => by
        have := hmarked (j + 1) (by omega)
        rwa [show free.i.toNat + (j + 1) = free.next.i.toNat + j by omega] at this
      have hclear' : test free.next.buffer (free.next.i.toNat + d) = false := by
        rwa [show free.i.toNat + (d + 1) = free.next.i.toNat + d by omega] at hclear
      obtain ⟨off, free', heq, hoff, hsame⟩ := ih (h.next hne) (by omega)
        (by rw [hi]; show _ < free.size.toNat; omega) hmarked' hclear'
      exact ⟨off, free', heq, by omega, hsame⟩

/-- A window without a free block is used up. -/
theorem allocFind_none (h : free.Sized c) {k : Nat} {free' : Free}
    (hfind : allocFind k free = (none, free')) (hk : free.size.toNat - free.i.toNat ≤ k) :
    free'.ack.toNat + (free.size.toNat - free.i.toNat) = free.ack.toNat := by
  induction k generalizing free with
  | zero =>
    rw [allocFind] at hfind
    split at hfind
    · cases hfind
      omega
    · cases hfind
      omega
  | succ k ih =>
    by_cases hend : free.i = free.size
    · rw [allocFind, if_pos hend] at hfind
      cases hfind
      rw [hend]
      omega
    · obtain ⟨hlt, hi, hack, hpos⟩ := h.next_toNat hend
      rw [allocFind, if_neg hend] at hfind
      simp only at hfind
      split at hfind
      · have hrec := ih (h.next hend) hfind (by rw [hi]; show free.size.toNat - _ ≤ _; omega)
        change _ + (free.size.toNat - free.next.i.toNat) = _ at hrec
        omega
      · cases hfind

theorem allocSkip_spec {k : Nat} (h : AllocInv c busy pending ever free) :
    AllocInv c busy pending ever (allocSkip k free) := by
  induction k generalizing free with
  | zero =>
    rw [allocSkip]
    split <;> exact h
  | succ k ih =>
    rw [allocSkip]
    split
    · rename_i hskip
      have hnext : AllocInv c busy pending ever free.next := h.next hskip.1 (fun _ => .inl)
        (fun _ => .inl) (fun _ => id) ((h.mark hskip.1).2 hskip.2)
      exact ih hnext
    · exact h

end Window

/-! ## A scan -/

section Scan

variable {c : LfsConfig} {busy pending ever : Nat → Prop} {free : Free} {blocks : List UInt32}

theorem lookahead_toNat (hcount : c.blockCount.toNat ≤ 2 ^ 31) {block off : UInt32}
    (hb : block < c.blockCount) (hoff : off.toNat < c.blockCount.toNat) :
    (((block - off) + c.blockCount) % c.blockCount).toNat =
      ahead c.blockCount.toNat off.toNat block.toNat := by
  have hb' := UInt32.lt_iff_toNat_lt.mp hb
  have hsub := UInt32.toNat_sub block off
  rw [UInt32.toNat_mod, UInt32.toNat_add, hsub, ahead]
  split
  · rw [show 2 ^ 32 - off.toNat + block.toNat = (block.toNat - off.toNat) + 2 ^ 32 by omega,
      Nat.add_mod_right, Nat.mod_eq_of_lt (show block.toNat - off.toNat < 2 ^ 32 by omega),
      Nat.mod_eq_of_lt (show block.toNat - off.toNat + c.blockCount.toNat < 2 ^ 32 by omega),
      Nat.add_mod_right, Nat.mod_eq_of_lt (by omega)]
  · rw [Nat.mod_eq_of_lt (show 2 ^ 32 - off.toNat + block.toNat < 2 ^ 32 by omega),
      show 2 ^ 32 - off.toNat + block.toNat + c.blockCount.toNat =
        (block.toNat + c.blockCount.toNat - off.toNat) + 2 ^ 32 by omega,
      Nat.add_mod_right, Nat.mod_eq_of_lt (by omega), Nat.mod_eq_of_lt (by omega)]

/-- What a scan leaves of a window, and that its marks are those of the blocks reported. -/
theorem foldl_lookahead_spec (hcount : c.blockCount.toNat ≤ 2 ^ 31)
    (hblocks : ∀ b ∈ blocks, b < c.blockCount) (hoff : free.off.toNat < c.blockCount.toNat)
    (hbits : free.size.toNat ≤ 32 * free.buffer.length) :
    ∃ buffer, blocks.foldl (lfsAllocLookahead c) free = { free with buffer } ∧
      buffer.length = free.buffer.length ∧
      ∀ k < free.size.toNat, test buffer k = true ↔ test free.buffer k = true ∨
        ∃ b ∈ blocks, k = ahead c.blockCount.toNat free.off.toNat b.toNat := by
  induction blocks generalizing free with
  | nil => exact ⟨free.buffer, rfl, rfl, fun k _ => by simp⟩
  | cons block blocks ih =>
    have hbit := lookahead_toNat hcount (hblocks block List.mem_cons_self) hoff
    have htail := fun b hb => hblocks b (List.mem_cons_of_mem block hb)
    rw [List.foldl_cons]
    have hone : ∃ buffer, lfsAllocLookahead c free block = { free with buffer } ∧
        buffer.length = free.buffer.length ∧
        ∀ k < free.size.toNat, test buffer k = true ↔ test free.buffer k = true ∨
          k = ahead c.blockCount.toNat free.off.toNat block.toNat := by
      rw [lfsAllocLookahead]
      simp only [hbit]
      split
      · rename_i hin
        rw [UInt32.lt_iff_toNat_lt, hbit] at hin
        refine ⟨_, rfl, set_length _ _, fun k _ => ?_⟩
        rw [test_set (by omega), Bool.or_eq_true, decide_eq_true_eq]
      · rename_i hout
        rw [UInt32.lt_iff_toNat_lt, hbit] at hout
        exact ⟨_, rfl, rfl, fun k hk => ⟨.inl, fun h => h.resolve_right (by omega)⟩⟩
    obtain ⟨buffer₁, heq₁, hlen₁, hmarks₁⟩ := hone
    obtain ⟨buffer, heq, hlen, hmarks⟩ := @ih { free with buffer := buffer₁ } htail hoff
      (by rw [hlen₁]; exact hbits)
    refine ⟨buffer, by rw [heq₁, heq], hlen.trans hlen₁, fun k hk => ?_⟩
    rw [hmarks k hk, hmarks₁ k hk]
    simp only [List.mem_cons, exists_eq_or_imp, or_assoc]

/-- A traversal that does not fail and reports the blocks of the tree. -/
structure Scans {τ : Type} (c : LfsConfig) (traverse : τ → (List UInt32 × Int) × τ)
    (reach : τ → Nat → Prop) : Prop where
  ok : ∀ t, (traverse t).1.2 = 0
  inside : ∀ t, ∀ b ∈ (traverse t).1.1, b < c.blockCount
  reports : ∀ t b, reach t b ↔ ∃ x ∈ (traverse t).1.1, x.toNat = b
  keeps : ∀ t b, reach (traverse t).2 b ↔ reach t b

theorem lookahead_bits (hc : LfsInit c) :
    (8 * c.lookaheadSize).toNat ≤ 32 * (c.lookaheadSize / 4).toNat := by
  have hwords := mod_eq_zero.mp hc.lookaheadWords
  have hmul := Nat.mod_le (8 * c.lookaheadSize.toNat) (2 ^ 32)
  rw [UInt32.toNat_mul, UInt32.toNat_div]
  change c.lookaheadSize.toNat % 8 = 0 at hwords
  show 8 * c.lookaheadSize.toNat % 2 ^ 32 ≤ 32 * (c.lookaheadSize.toNat / 4)
  omega

theorem nextWindow_spec (hc : LfsInit c) (hcount : c.blockCount.toNat ≤ 2 ^ 31)
    (h : free.Sized c) (hend : free.i = free.size) (hack : free.ack ≠ 0) :
    (nextWindow c free).Sized c ∧ (nextWindow c free).off.toNat = free.cur c ∧
      (nextWindow c free).cur c = free.cur c := by
  have hpos := toNat_ne_zero.mp hack
  have hackle := h.ack_le
  have hcur : free.cur c < c.blockCount.toNat := Nat.mod_lt _ (by omega)
  have hoff : (nextWindow c free).off.toNat = free.cur c := by
    show ((free.off + free.size) % c.blockCount).toNat = _
    rw [UInt32.toNat_mod, UInt32.toNat_add, Free.cur, hend]
    congr 1
    refine Nat.mod_eq_of_lt ?_
    by_cases hz : free.size = 0
    · rw [hz]
      exact free.off.toNat_lt
    · have := h.off_lt hz
      have := h.size_le
      omega
  have hsize : (nextWindow c free).size.toNat = min (8 * c.lookaheadSize).toNat free.ack.toNat :=
    lfsMin_toNat _ _
  have hbits := lookahead_bits hc
  refine ⟨⟨?_, Nat.zero_le _, by omega, ?_, hackle, fun _ => hoff ▸ hcur⟩, hoff, ?_⟩
  · rw [hsize]
    show _ ≤ 32 * (List.replicate (c.lookaheadSize / 4).toNat (0 : UInt32)).length
    rw [List.length_replicate]
    omega
  · show _ - 0 ≤ free.ack.toNat
    omega
  · rw [Free.cur, hoff]
    exact Nat.mod_eq_of_lt hcur

theorem AllocInv.scan {τ : Type} {traverse : τ → (List UInt32 × Int) × τ} {reach : τ → Nat → Prop}
    {t : τ} (hs : Scans c traverse reach) (hc : LfsInit c) (hcount : c.blockCount.toNat ≤ 2 ^ 31)
    (h : AllocInv c busy pending ever free) (hend : free.i = free.size) (hack : free.ack ≠ 0)
    (hbusy : ∀ b, busy b → ¬pending b → reach t b) (hever : ∀ b, reach t b → ever b) :
    AllocInv c busy pending ever
      ((traverse t).1.1.foldl (lfsAllocLookahead c) (nextWindow c free)) := by
  obtain ⟨hsized, hoff, hcur⟩ := nextWindow_spec hc hcount h.toSized hend hack
  have hcurlt : free.cur c < c.blockCount.toNat :=
    Nat.mod_lt _ (by have := toNat_ne_zero.mp hack; have := h.ack_le; omega)
  obtain ⟨buffer, heq, hlen, hmarks⟩ := foldl_lookahead_spec hcount (hs.inside t)
    (by rw [hoff]; exact hcurlt) hsized.bits
  have hclear : ∀ k, test (nextWindow c free).buffer k = false := test_replicate_zero _
  rw [heq]
  have hcur' : Free.cur c { nextWindow c free with buffer } = free.cur c := hcur
  refine { bits := by rw [hlen]; exact hsized.bits, i_le := hsized.i_le, size_le := hsized.size_le,
           left_le := hsized.left_le, ack_le := hsized.ack_le, off_lt := hsized.off_lt,
           marked := ?_, passed := ?_, marks := ?_, seen := ?_ }
  · intro b hb hbusy' hin
    rw [hcur'] at hin ⊢
    have hleft := hsized.left_le
    have hreach := (hs.reports t b).mp (hbusy b hbusy' fun hpend => by
      have hpassed := h.passed b hb hpend
      change _ < (nextWindow c free).size.toNat - 0 at hin
      change (nextWindow c free).size.toNat - 0 ≤ free.ack.toNat at hleft
      omega)
    obtain ⟨x, hx, rfl⟩ := hreach
    show test buffer (0 + _) = true
    rw [Nat.zero_add, hmarks _ hin]
    exact .inr ⟨x, hx, by rw [hoff]⟩
  · intro b hb hpend
    rw [hcur']
    exact h.passed b hb hpend
  · intro b hb hin htest
    rw [hcur'] at hin htest
    change test buffer (0 + _) = true at htest
    rw [Nat.zero_add, hmarks _ hin, hclear, hoff] at htest
    obtain ⟨x, hx, hsame⟩ := htest.resolve_left Bool.false_ne_true
    have hxb := add_ahead hcurlt hb
    rw [hsame, add_ahead hcurlt (UInt32.lt_iff_toNat_lt.mp (hs.inside t x hx))] at hxb
    exact hever b ((hs.reports t b).mpr ⟨x, hx, hxb⟩)
  · intro b hb hle
    rw [hcur'] at hle
    exact h.seen b hb hle

/-- One call: a block that is not in use, or none is left. -/
theorem lfsAlloc_spec {τ : Type} {traverse : τ → (List UInt32 × Int) × τ} {reach : τ → Nat → Prop}
    (hs : Scans c traverse reach) (hc : LfsInit c) (hcount : c.blockCount.toNat ≤ 2 ^ 31)
    {fuel : Nat} {t t' : τ} {free' : Free} {r : Except Int UInt32}
    (h : AllocInv c busy pending ever free) (hbusy : ∀ b, busy b → ¬pending b → reach t b)
    (hever : ∀ b, reach t b → ever b)
    (hcall : lfsAlloc c traverse fuel free t = some (r, free', t')) :
    (∀ b, reach t' b ↔ reach t b) ∧
      ((∃ b, r = .ok b ∧ b.toNat < c.blockCount.toNat ∧ ¬busy b.toNat ∧
          AllocInv c (With busy b.toNat) (With pending b.toNat) (With ever b.toNat) free') ∨
        r = .error LFS_ERR_NOSPC ∧ (∀ b < c.blockCount.toNat, ever b) ∧
          AllocInv c busy pending ever free') := by
  have hleft : free.size.toNat - free.i.toNat ≤ (free.size - free.i).toNat := by
    rw [UInt32.toNat_sub_of_le _ _ (UInt32.le_iff_toNat_le.mpr h.i_le)]
  induction fuel generalizing free t with
  | zero =>
    rw [lfsAlloc] at hcall
    rcases allocFind_spec hcount h hleft with ⟨off, free₁, hfind, hlt, hfree, hinv⟩ |
      ⟨free₁, hfind, hend, hinv⟩
    · rw [hfind] at hcall
      cases hcall
      exact ⟨fun _ => Iff.rfl, .inl ⟨_, rfl, hlt, hfree, allocSkip_spec hinv⟩⟩
    · rw [hfind] at hcall
      simp only at hcall
      split at hcall
      · rename_i hack
        cases hcall
        exact ⟨fun _ => Iff.rfl, .inr ⟨rfl, fun b hb => hinv.seen b hb (by rw [hack]; exact Nat.zero_le _),
          hinv⟩⟩
      · rw [if_neg (not_not.mpr (hs.ok t))] at hcall
        cases hcall
  | succ fuel ih =>
    rw [lfsAlloc] at hcall
    rcases allocFind_spec hcount h hleft with ⟨off, free₁, hfind, hlt, hfree, hinv⟩ |
      ⟨free₁, hfind, hend, hinv⟩
    · rw [hfind] at hcall
      cases hcall
      exact ⟨fun _ => Iff.rfl, .inl ⟨_, rfl, hlt, hfree, allocSkip_spec hinv⟩⟩
    · rw [hfind] at hcall
      simp only at hcall
      split at hcall
      · rename_i hack
        cases hcall
        exact ⟨fun _ => Iff.rfl, .inr ⟨rfl, fun b hb => hinv.seen b hb (by rw [hack]; exact Nat.zero_le _),
          hinv⟩⟩
      · rename_i hack
        rw [if_neg (not_not.mpr (hs.ok t))] at hcall
        have hscan := hinv.scan hs hc hcount hend hack hbusy hever
        have hkeeps := hs.keeps t
        obtain ⟨hsame, hres⟩ := ih hscan (fun b hb hp => (hkeeps b).mpr (hbusy b hb hp))
          (fun b hb => hever b ((hkeeps b).mp hb)) hcall
          (by rw [UInt32.toNat_sub_of_le _ _ (UInt32.le_iff_toNat_le.mpr hscan.i_le)])
        exact ⟨fun b => (hsame b).trans (hkeeps b), hres⟩

/-- A traversal that fails marks some blocks only, and the window counts as scanned: the next call
hands out the first block the traversal did not get to, and does not look at the tree for it. -/
theorem lfsAlloc_after_error {τ : Type} {traverse traverse' : τ → (List UInt32 × Int) × τ}
    (hc : LfsInit c) (hcount : c.blockCount.toNat ≤ 2 ^ 31) (h : free.Sized c)
    (hend : free.i = free.size) (hack : free.ack ≠ 0) {t t₁ t₂ : τ} {err : Int}
    (htraverse : traverse t = ((blocks, err), t₁)) (herr : err ≠ 0)
    (hblocks : ∀ x ∈ blocks, x < c.blockCount) {b : UInt32} (hb : b < c.blockCount)
    (hwindow : ahead c.blockCount.toNat (free.cur c) b.toNat < (nextWindow c free).size.toNat)
    (hmissed : b ∉ blocks) (hfirst : ∀ x < c.blockCount,
      ahead c.blockCount.toNat (free.cur c) x.toNat < ahead c.blockCount.toNat (free.cur c) b.toNat →
      x ∈ blocks) (fuel fuel' : Nat) :
    ∃ free₁ free₂, lfsAlloc c traverse fuel free t = some (.error err, free₁, t₁) ∧
      lfsAlloc c traverse' fuel' free₁ t₂ = some (.ok b, free₂, t₂) := by
  obtain ⟨hsized, hoff, -⟩ := nextWindow_spec hc hcount h hend hack
  have hb' := UInt32.lt_iff_toNat_lt.mp hb
  have hcur : free.cur c < c.blockCount.toNat := Nat.mod_lt _ (by omega)
  obtain ⟨buffer, heq, hlen, hmarks⟩ := foldl_lookahead_spec hcount hblocks (by rw [hoff]; exact hcur)
    hsized.bits
  have hclear : ∀ k, test (nextWindow c free).buffer k = false := test_replicate_zero _
  have hmark : ∀ k < (nextWindow c free).size.toNat, test buffer k = true ↔
      ∃ x ∈ blocks, k = ahead c.blockCount.toNat (free.cur c) x.toNat := by
    intro k hk
    rw [hmarks k hk, hclear, hoff]
    simp
  have hfirstcall : lfsAlloc c traverse fuel free t =
      some (.error err, { nextWindow c free with buffer }, t₁) := by
    have hfind : allocFind (free.size - free.i).toNat free = (none, free) := by
      cases (free.size - free.i).toNat <;> rw [allocFind, if_pos hend]
    cases fuel <;> rw [lfsAlloc, hfind] <;> simp only [if_neg hack, htraverse, heq, if_pos herr]
  have hsized₁ : Free.Sized c { nextWindow c free with buffer } :=
    ⟨by rw [hlen]; exact hsized.bits, hsized.i_le, hsized.size_le, hsized.left_le, hsized.ack_le,
      hsized.off_lt⟩
  obtain ⟨off, free', hfind, hd, hsame⟩ := allocFind_first hsized₁
    (k := ((nextWindow c free).size - (nextWindow c free).i).toNat)
    (d := ahead c.blockCount.toNat (free.cur c) b.toNat)
    (by
      rw [UInt32.toNat_sub_of_le _ _ (UInt32.le_iff_toNat_le.mpr hsized.i_le)]
      exact hwindow)
    (by show 0 + _ < _; rw [Nat.zero_add]; exact hwindow)
    (fun j hj => by
      show test buffer (0 + j) = true
      rw [Nat.zero_add, hmark j (Nat.lt_trans hj hwindow)]
      have hplace := ahead_lt hcur hb'
      have hlt : (free.cur c + j) % c.blockCount.toNat < c.blockCount.toNat := Nat.mod_lt _ (by omega)
      have hcount32 := c.blockCount.toNat_lt
      have hnat : (UInt32.ofNat ((free.cur c + j) % c.blockCount.toNat)).toNat =
          (free.cur c + j) % c.blockCount.toNat := UInt32.toNat_ofNat_of_lt' (by rw [UInt32.size]; omega)
      have hahead : ahead c.blockCount.toNat (free.cur c) ((free.cur c + j) % c.blockCount.toNat) = j :=
        ahead_add hcur (by omega)
      exact ⟨_, hfirst (UInt32.ofNat ((free.cur c + j) % c.blockCount.toNat))
        (UInt32.lt_iff_toNat_lt.mpr (by rw [hnat]; exact hlt)) (by rw [hnat, hahead]; exact hj),
        by rw [hnat, hahead]⟩)
    (by
      show test buffer (0 + _) = false
      rw [Nat.zero_add, Bool.eq_false_iff, ne_eq, hmark _ hwindow]
      rintro ⟨x, hx, hsame⟩
      have hxb := add_ahead hcur hb'
      rw [hsame, add_ahead hcur (UInt32.lt_iff_toNat_lt.mp (hblocks x hx))] at hxb
      exact hmissed (UInt32.toNat_inj.mp hxb ▸ hx))
  have hblock : (free'.off + off) % c.blockCount = b := by
    rw [← UInt32.toNat_inj, UInt32.toNat_mod, UInt32.toNat_add, hsame, hd]
    show ((nextWindow c free).off.toNat + (0 + _)) % _ % _ = _
    have hplace := ahead_lt hcur hb'
    rw [hoff, Nat.zero_add, Nat.mod_eq_of_lt (show free.cur c + _ < 2 ^ 32 by omega)]
    exact add_ahead hcur hb'
  refine ⟨_, allocSkip (free'.size - free'.i).toNat free', hfirstcall, ?_⟩
  cases fuel' <;> rw [lfsAlloc, hfind] <;> simp only [hblock]

/-! ### A device of eight blocks -/

def firstWindow : Free := ⟨0, 0, 0, 8, []⟩

theorem firstWindow_sized : firstWindow.Sized eightBlocks where
  bits := by decide
  i_le := by decide
  size_le := by decide
  left_le := by decide
  ack_le := by decide
  off_lt := by decide

def scanOf (blocks : List UInt32) (err : Int) (t : Unit) : (List UInt32 × Int) × Unit := ((blocks, err), t)

/-- A traversal of a tree with the blocks 0 and 1 that cannot read block 0. -/
theorem lfsAlloc_after_error_eightBlocks :
    ∃ free₁ free₂, lfsAlloc eightBlocks (scanOf [0] LFS_ERR_CORRUPT) 8 firstWindow () =
        some (.error LFS_ERR_CORRUPT, free₁, ()) ∧
      lfsAlloc eightBlocks (scanOf [0, 1] 0) 8 free₁ () = some (.ok 1, free₂, ()) :=
  lfsAlloc_after_error eightBlocks_init (by decide) firstWindow_sized rfl (by decide) rfl (by decide)
    (by simp [eightBlocks]) (by decide) (by decide) (by decide)
    (fun x _ hx => by
      have hcur : ahead eightBlocks.blockCount.toNat (firstWindow.cur eightBlocks) x.toNat = x.toNat :=
        if_pos (Nat.zero_le _)
      rw [hcur] at hx
      have hx' : x.toNat < 1 := hx
      exact List.mem_singleton.mpr (UInt32.toNat_inj.mp (by show _ = 0; omega))) 8 8

end Scan

/-! ## Runs -/

/-- The runs of a client. It may use the blocks it was given, and it may give up blocks; before an
`lfs_alloc_ack` all it uses is part of the tree. -/
inductive Allocates {τ : Type} (c : LfsConfig) (traverse : τ → (List UInt32 × Int) × τ)
    (reach : τ → Nat → Prop) (fuel : Nat) : (Nat → Prop) → (Nat → Prop) → (Nat → Prop) → Free → τ → Prop where
  /-- `lfs_mount`, wherever its `seed` lets the first window begin -/
  | mount {busy ever : Nat → Prop} {free : Free} {t : τ} (hsize : free.size = 0) (hi : free.i = 0)
      (hack : free.ack = c.blockCount) (hbusy : ∀ b, busy b → reach t b)
      (hever : ∀ b, reach t b → ever b) :
      Allocates c traverse reach fuel busy (fun _ => False) ever free t
  | alloc {busy pending ever : Nat → Prop} {free free' : Free} {t t' : τ} {b : UInt32}
      (h : Allocates c traverse reach fuel busy pending ever free t)
      (hcall : lfsAlloc c traverse fuel free t = some (.ok b, free', t')) :
      Allocates c traverse reach fuel (With busy b.toNat) (With pending b.toNat) (With ever b.toNat)
        free' t'
  | full {busy pending ever : Nat → Prop} {free free' : Free} {t t' : τ} {err : Int}
      (h : Allocates c traverse reach fuel busy pending ever free t)
      (hcall : lfsAlloc c traverse fuel free t = some (.error err, free', t')) :
      Allocates c traverse reach fuel busy pending ever free' t'
  | client {busy busy' pending ever : Nat → Prop} {free : Free} {t t' : τ}
      (h : Allocates c traverse reach fuel busy pending ever free t)
      (hbusy : ∀ b, busy' b → busy b) (hlinked : ∀ b, busy' b → ¬pending b → reach t' b)
      (hever : ∀ b, reach t' b → ever b) :
      Allocates c traverse reach fuel busy' pending ever free t'
  | ack {busy pending ever : Nat → Prop} {free : Free} {t : τ}
      (h : Allocates c traverse reach fuel busy pending ever free t)
      (hlinked : ∀ b, busy b → reach t b) :
      Allocates c traverse reach fuel busy (fun _ => False) ever (lfsAllocAck c free) t

section Runs

variable {τ : Type} {c : LfsConfig} {traverse : τ → (List UInt32 × Int) × τ} {reach : τ → Nat → Prop}
  {fuel : Nat} {busy pending ever : Nat → Prop} {free free' : Free} {t t' : τ}

theorem Allocates.inv (h : Allocates c traverse reach fuel busy pending ever free t)
    (hs : Scans c traverse reach) (hc : LfsInit c) (hcount : c.blockCount.toNat ≤ 2 ^ 31) :
    AllocInv c busy pending ever free ∧ (∀ b, busy b → ¬pending b → reach t b) ∧
      ∀ b, reach t b → ever b := by
  induction h with
  | @mount busy ever free t hsize hi hack hbusy hever =>
    have hzero : free.size.toNat = 0 := by rw [hsize]; rfl
    have hfar : ∀ b < c.blockCount.toNat,
        ¬c.blockCount.toNat ≤ ahead c.blockCount.toNat (free.cur c) b := by
      intro b hb
      have := ahead_lt (show free.cur c < c.blockCount.toNat from Nat.mod_lt _ (by omega)) hb
      omega
    refine ⟨{ bits := by omega, i_le := by rw [hi]; exact Nat.zero_le _, size_le := by omega,
              left_le := by omega, ack_le := by rw [hack], off_lt := fun hne => absurd hsize hne,
              marked := fun b _ _ hin => by omega, passed := fun _ _ hfalse => hfalse.elim,
              marks := fun b _ hin => by omega,
              seen := fun b hb hle => absurd (hack ▸ hle) (hfar b hb) },
      fun b hb _ => hbusy b hb, hever⟩
  | @alloc busy pending ever free free' t t' b _ hcall ih =>
    obtain ⟨hinv, hbusy, hever⟩ := ih
    obtain ⟨hsame, ⟨b', heq, -, -, hinv'⟩ | ⟨heq, -⟩⟩ :=
      lfsAlloc_spec hs hc hcount hinv hbusy hever hcall
    · cases heq
      refine ⟨hinv', fun x hx hpend => (hsame x).mpr ?_, fun x hx => .inl (hever x ((hsame x).mp hx))⟩
      rcases hx with hx | rfl
      · exact hbusy x hx fun hp => hpend (.inl hp)
      · exact absurd (.inr rfl) hpend
    · cases heq
  | full _ hcall ih =>
    obtain ⟨hinv, hbusy, hever⟩ := ih
    obtain ⟨hsame, ⟨b', heq, -⟩ | ⟨-, -, hinv'⟩⟩ := lfsAlloc_spec hs hc hcount hinv hbusy hever hcall
    · cases heq
    · exact ⟨hinv', fun x hx hp => (hsame x).mpr (hbusy x hx hp), fun x hx => hever x ((hsame x).mp hx)⟩
  | client _ hfewer hlinked hever ih =>
    exact ⟨{ ih.1 with marked := fun b hb hbusy => ih.1.marked b hb (hfewer b hbusy) }, hlinked, hever⟩
  | @ack busy pending ever free t _ hlinked ih =>
    obtain ⟨hinv, -, hever⟩ := ih
    have hsize := hinv.size_le
    refine ⟨{ hinv with left_le := ?_, ack_le := Nat.le_refl _, passed := fun _ _ hfalse => hfalse.elim,
                        seen := fun b hb hle => ?_ }, fun b hb _ => hlinked b hb, hever⟩
    · show free.size.toNat - free.i.toNat ≤ c.blockCount.toNat
      omega
    · change c.blockCount.toNat ≤ ahead c.blockCount.toNat (free.cur c) b at hle
      have := ahead_lt (show free.cur c < c.blockCount.toNat from Nat.mod_lt _ (by omega)) hb
      omega

theorem lfsAlloc_not_busy (h : Allocates c traverse reach fuel busy pending ever free t)
    (hs : Scans c traverse reach) (hc : LfsInit c) (hcount : c.blockCount.toNat ≤ 2 ^ 31) {b : UInt32}
    (hcall : lfsAlloc c traverse fuel free t = some (.ok b, free', t')) :
    b < c.blockCount ∧ ¬busy b.toNat := by
  obtain ⟨hinv, hbusy, hever⟩ := h.inv hs hc hcount
  obtain ⟨-, ⟨b', heq, hlt, hfree, -⟩ | ⟨heq, -⟩⟩ := lfsAlloc_spec hs hc hcount hinv hbusy hever hcall
  · cases heq
    exact ⟨UInt32.lt_iff_toNat_lt.mpr hlt, hfree⟩
  · cases heq

theorem lfsAlloc_ends (hs : Scans c traverse reach) (hc : LfsInit c)
    (hcount : c.blockCount.toNat ≤ 2 ^ 31) (hwindow : 8 * c.lookaheadSize ≠ 0)
    (hinv : AllocInv c busy pending ever free) (hbusy : ∀ b, busy b → ¬pending b → reach t b)
    (hever : ∀ b, reach t b → ever b)
    (hfuel : free.ack.toNat ≤ fuel + (free.size.toNat - free.i.toNat)) :
    ∃ r, lfsAlloc c traverse fuel free t = some r := by
  have hleft : ∀ {free : Free}, free.Sized c →
      free.size.toNat - free.i.toNat ≤ (free.size - free.i).toNat := fun h => by
    rw [UInt32.toNat_sub_of_le _ _ (UInt32.le_iff_toNat_le.mpr h.i_le)]
  induction fuel generalizing free t with
  | zero =>
    rw [lfsAlloc]
    rcases allocFind_spec hcount hinv (hleft hinv.toSized) with ⟨off, free₁, hfind, -⟩ |
      ⟨free₁, hfind, -⟩
    · rw [hfind]
      exact ⟨_, rfl⟩
    · have hused := allocFind_none hinv.toSized hfind (hleft hinv.toSized)
      have hack : free₁.ack = 0 := UInt32.toNat_inj.mp (by show _ = 0; omega)
      rw [hfind]
      simp only [hack, if_true]
      exact ⟨_, rfl⟩
  | succ fuel ih =>
    rw [lfsAlloc]
    rcases allocFind_spec hcount hinv (hleft hinv.toSized) with ⟨off, free₁, hfind, -⟩ |
      ⟨free₁, hfind, hend, hinv₁⟩
    · rw [hfind]
      exact ⟨_, rfl⟩
    · have hused := allocFind_none hinv.toSized hfind (hleft hinv.toSized)
      rw [hfind]
      simp only
      split
      · exact ⟨_, rfl⟩
      · rename_i hack
        rw [if_neg (not_not.mpr (hs.ok t))]
        have hkeeps := hs.keeps t
        have hscan := hinv₁.scan hs hc hcount hend hack hbusy hever
        obtain ⟨hsized, hoff, -⟩ := nextWindow_spec hc hcount hinv₁.toSized hend hack
        obtain ⟨buffer, heq, -⟩ := foldl_lookahead_spec hcount (hs.inside t)
          (by rw [hoff]; exact Nat.mod_lt _
                (by have := toNat_ne_zero.mp hack; have := hinv₁.ack_le; omega)) hsized.bits
        refine ih hscan (fun b hb hp => (hkeeps b).mpr (hbusy b hb hp))
          (fun b hb => hever b ((hkeeps b).mp hb)) ?_
        rw [heq]
        show free₁.ack.toNat ≤ fuel + ((lfsMin (8 * c.lookaheadSize) free₁.ack).toNat - 0)
        rw [lfsMin_toNat]
        have := toNat_ne_zero.mp hack
        have := toNat_ne_zero.mp hwindow
        omega

/-- The loop ends: no more windows are scanned than there are blocks. -/
theorem lfsAlloc_total (h : Allocates c traverse reach fuel busy pending ever free t)
    (hs : Scans c traverse reach) (hc : LfsInit c) (hcount : c.blockCount.toNat ≤ 2 ^ 31)
    (hwindow : 8 * c.lookaheadSize ≠ 0) {fuel' : Nat} (hfuel : c.blockCount.toNat ≤ fuel') :
    ∃ r, lfsAlloc c traverse fuel' free t = some r := by
  obtain ⟨hinv, hbusy, hever⟩ := h.inv hs hc hcount
  have := hinv.ack_le
  exact lfsAlloc_ends hs hc hcount hwindow hinv hbusy hever (by omega)

/-- The only error is that no block is left that has never been in use. -/
theorem lfsAlloc_full (h : Allocates c traverse reach fuel busy pending ever free t)
    (hs : Scans c traverse reach) (hc : LfsInit c) (hcount : c.blockCount.toNat ≤ 2 ^ 31) {err : Int}
    (hcall : lfsAlloc c traverse fuel free t = some (.error err, free', t')) :
    err = LFS_ERR_NOSPC ∧ ∀ b < c.blockCount.toNat, ever b := by
  obtain ⟨hinv, hbusy, hever⟩ := h.inv hs hc hcount
  obtain ⟨-, ⟨b', heq, -⟩ | ⟨heq, hused, -⟩⟩ := lfsAlloc_spec hs hc hcount hinv hbusy hever hcall
  · cases heq
  · cases heq
    exact ⟨rfl, hused⟩

end Runs

/-! ### Runs on the device of eight blocks -/

theorem scanOf_scans {blocks : List UInt32} (hblocks : ∀ b ∈ blocks, b < eightBlocks.blockCount) :
    Scans eightBlocks (scanOf blocks 0) fun _ b => ∃ x ∈ blocks, x.toNat = b where
  ok _ := rfl
  inside _ := hblocks
  reports _ _ := Iff.rfl
  keeps _ _ := Iff.rfl

theorem mounted (blocks : List UInt32) :
    Allocates eightBlocks (scanOf blocks 0) (fun _ b => ∃ x ∈ blocks, x.toNat = b) 8
      (fun b => ∃ x ∈ blocks, x.toNat = b) (fun _ => False) (fun b => ∃ x ∈ blocks, x.toNat = b)
      firstWindow () :=
  .mount rfl rfl rfl (fun _ => id) (fun _ => id)

theorem lfsAlloc_not_busy_eightBlocks :
    (∃ free', lfsAlloc eightBlocks (scanOf [0, 1] 0) 8 firstWindow () = some (.ok 2, free', ())) ∧
      (2 : UInt32) < eightBlocks.blockCount ∧ ¬∃ x ∈ ([0, 1] : List UInt32), x.toNat = 2 := by
  have hcall : ∃ free', lfsAlloc eightBlocks (scanOf [0, 1] 0) 8 firstWindow () =
      some (.ok 2, free', ()) := ⟨_, rfl⟩
  obtain ⟨free', hcall⟩ := hcall
  exact ⟨⟨free', hcall⟩, lfsAlloc_not_busy (mounted [0, 1]) (scanOf_scans (by simp [eightBlocks])) eightBlocks_init
    (by decide) hcall⟩

theorem lfsAlloc_total_eightBlocks :
    ∃ r, lfsAlloc eightBlocks (scanOf [0, 1] 0) 8 firstWindow () = some r :=
  lfsAlloc_total (mounted [0, 1]) (scanOf_scans (by simp [eightBlocks])) eightBlocks_init (by decide) (by decide)
    (by decide)

theorem lfsAlloc_full_eightBlocks :
    ∃ err, err = LFS_ERR_NOSPC ∧ ∀ b < eightBlocks.blockCount.toNat,
      ∃ x ∈ ([0, 1, 2, 3, 4, 5, 6, 7] : List UInt32), x.toNat = b := by
  have hmount := mounted [0, 1, 2, 3, 4, 5, 6, 7]
  have hscans := @scanOf_scans [0, 1, 2, 3, 4, 5, 6, 7] (by simp [eightBlocks])
  obtain ⟨hinv, hbusy, hever⟩ := hmount.inv hscans eightBlocks_init (by decide)
  have hends : ∃ r, lfsAlloc eightBlocks (scanOf [0, 1, 2, 3, 4, 5, 6, 7] 0) 8 firstWindow () = some r :=
    lfsAlloc_ends hscans eightBlocks_init (by decide) (by decide) hinv hbusy hever (by decide)
  obtain ⟨⟨r, free', t'⟩, hcall⟩ := hends
  obtain ⟨-, ⟨b, -, hlt, hfree, -⟩ | ⟨rfl, -⟩⟩ :=
    lfsAlloc_spec hscans eightBlocks_init (by decide) hinv hbusy hever hcall
  · have hall : ∀ b < 8, ∃ x ∈ ([0, 1, 2, 3, 4, 5, 6, 7] : List UInt32), x.toNat = b := by decide
    exact absurd (hall _ hlt) hfree
  · exact ⟨_, lfsAlloc_full hmount hscans eightBlocks_init (by decide) hcall⟩

end LfsTool
