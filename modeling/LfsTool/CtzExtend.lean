import LfsTool.Ctz

/-!
# LfsTool.CtzExtend

How a list of blocks grows: `lfs_ctz_extend` makes room for the next byte, in a copy of the last block
or in a new one behind it, and takes another block when one cannot be written.

* `Blocks`: the allocator, and the operations on blocks. `Blocks.Lawful`: what they are relied on for,
  with the place the next `prog` goes to.
* `ctzExtendTurn`: one turn of the loop, with the `head` and the `size` it leaves to the next one.
* `Extended`: a list with room for the next byte, and the bytes there were.
* `lfsCtzExtend_extended`: the list is extended, also after bad blocks when the new block has one
  pointer. `lfsCtzExtend_lost`: with more pointers it is not after one that could not be written.
-/

namespace LfsTool

open BitCount SkipList BlockArray

/-! ## The loop -/

/-- The operations are `none` where an assertion stops them. -/
structure Blocks (σ : Type) where
  alloc : σ → Option (Except Int UInt32 × σ)
  erase : UInt32 → σ → Option (Int × σ)
  /-- `lfs_bd_read` without a program cache, of a block, an offset, a hint and a size -/
  read : UInt32 → Nat → Nat → Nat → σ → Option (Except Int (List UInt8) × σ)
  prog : UInt32 → Nat → List UInt8 → σ → Option (Int × σ)
  /-- `lfs_cache_drop` of the program cache -/
  drop : σ → σ

/-- How a turn, or a loop in it, ends. -/
inductive Outcome (α : Type) where
  | done (a : α)
  | failed (err : Int)
  | relocate (a : α)

def Outcome.Ensures {α : Type} (finished lost : α → Prop) : Outcome α → Prop
  | .done a => finished a
  | .failed _ => True
  | .relocate a => lost a

section Extend

variable {σ : Type} (bd : Blocks σ) (c : LfsConfig)

def ctzCopy (head nblock : UInt32) : Nat → Nat → σ → Option (Outcome Unit × σ)
  | _, 0, s => some (.done (), s)
  | i, k + 1, s =>
    match bd.read head i (k + 1) 1 s with
    | none => none
    | some (.error err, s) => some (.failed err, s)
    | some (.ok data, s) =>
      match bd.prog nblock i data s with
      | none => none
      | some (err, s) =>
        if err = LFS_ERR_CORRUPT then some (.relocate (), s)
        else if err ≠ 0 then some (.failed err, s)
        else ctzCopy head nblock (i + 1) k s

/-- Writes pointers `i` to `i + k - 1`, with the `head` this leaves. -/
def ctzPointers (nblock : UInt32) : UInt32 → Nat → Nat → σ → Option (Outcome UInt32 × σ)
  | head, _, 0, s => some (.done head, s)
  | head, i, k + 1, s =>
    match bd.prog nblock (4 * i) (le32 head) s with
    | none => none
    | some (err, s) =>
      if err = LFS_ERR_CORRUPT then some (.relocate head, s)
      else if err ≠ 0 then some (.failed err, s)
      else if k = 0 then
        if head ≥ 2 ∧ head ≤ c.blockCount then some (.done head, s) else none
      else
        match bd.read head (4 * i) 4 4 s with
        | none => none
        | some (.error err, s) => some (.failed err, s)
        | some (.ok data, s) =>
          let head := lfsFromle32 data
          if head ≥ 2 ∧ head ≤ c.blockCount then ctzPointers nblock head (i + 1) k s else none

/-- The block and the offset of the next byte, or `head` and `size` at `relocate`. -/
def ctzExtendTurn (head size : UInt32) (s : σ) : Option (Outcome (UInt32 × UInt32) × σ) :=
  match bd.alloc s with
  | none => none
  | some (.error err, s) => some (.failed err, s)
  | some (.ok nblock, s) =>
    if nblock ≥ 2 ∧ nblock ≤ c.blockCount then
      match bd.erase nblock s with
      | none => none
      | some (err, s) =>
        if err = LFS_ERR_CORRUPT then some (.relocate (head, size), s)
        else if err ≠ 0 then some (.failed err, s)
        else if size = 0 then some (.done (nblock, 0), s)
        else
          let (index, off) := lfsCtzIndex c (size - 1)
          -- `size` is now the size of the data in the last block
          let size := off + 1
          if size ≠ c.blockSize then
            match ctzCopy bd head nblock 0 size.toNat s with
            | none => none
            | some (.failed err, s) => some (.failed err, s)
            | some (.relocate _, s) => some (.relocate (head, size), s)
            | some (.done _, s) => some (.done (nblock, size), s)
          else
            let skips := lfsCtz (index + 1) + 1
            match ctzPointers bd c nblock head 0 skips.toNat s with
            | none => none
            | some (.failed err, s) => some (.failed err, s)
            | some (.relocate head, s) => some (.relocate (head, size), s)
            | some (.done _, s) => some (.done (nblock, 4 * skips), s)
    else none

/-- `lfs_ctz_extend` with at most `fuel` bad blocks -/
def lfsCtzExtend : Nat → UInt32 → UInt32 → σ → Option (Except Int (UInt32 × UInt32) × σ)
  | fuel, head, size, s =>
    match ctzExtendTurn bd c head size s with
    | none => none
    | some (.failed err, s) => some (.error err, s)
    | some (.done res, s) => some (.ok res, s)
    | some (.relocate (head, size), s) =>
      match fuel with
      | 0 => none
      | fuel + 1 => lfsCtzExtend fuel head size (bd.drop s)

end Extend

/-! ## What the operations are relied on for -/

/-- `prog` may go on at `off` of a block, or begins at the start of one. -/
def Continues (cur : Option (UInt32 × Nat)) (block : UInt32) (off : Nat) : Prop :=
  cur = none ∧ off = 0 ∨ cur = some (block, off)

/-- `shows s dev cur`: the blocks read as `dev`, what is in the program cache included, and `cur` is
where the data in that cache ends. Blocks that are `live` are not handed out. -/
structure Blocks.Lawful {σ : Type} (bd : Blocks σ) (c : LfsConfig) (live : UInt32 → Prop)
    (shows : σ → Device UInt8 → Option (UInt32 × Nat) → Prop) : Prop where
  alloc : ∀ {s s' dev block}, shows s dev none → bd.alloc s = some (.ok block, s') →
    shows s' dev none ∧ block < c.blockCount ∧ ¬live block
  erase : ∀ {s s' dev block err}, shows s dev none → block < c.blockCount → ¬live block →
    bd.erase block s = some (err, s') →
    err = 0 ∧ shows s' (dev.erase block.toNat 0xff) none ∨
      err < 0 ∧ ∃ dev', shows s' dev' none ∧ ∀ b ≠ block.toNat, dev' b = dev b
  read : ∀ {s s' dev cur block off hint size data}, shows s dev cur → block < c.blockCount →
    live block → GoodHint c hint → 0 < size → off + size ≤ c.blockSize.toNat →
    bd.read block off hint size s = some (.ok data, s') →
    shows s' dev cur ∧ data = dev.read block.toNat off size
  prog : ∀ {s s' dev cur block off data err}, shows s dev cur → block < c.blockCount → ¬live block →
    Continues cur block off → off + data.length ≤ c.blockSize.toNat →
    bd.prog block off data s = some (err, s') →
    err = 0 ∧ shows s' (dev.prog block.toNat off data) (some (block, off + data.length)) ∨
      err < 0 ∧ ∃ dev', shows (bd.drop s') dev' none ∧ ∀ b ≠ block.toNat, dev' b = dev b
  drop : ∀ {s dev}, shows s dev none → shows (bd.drop s) dev none

/-- The next byte of the file goes to `off` of block `i`, which is `block` now; the bytes there are can
still be read. -/
structure Extended (c : LfsConfig) (dev : Device UInt8) (addr : Nat → UInt32) (content : List UInt8)
    (i : Nat) (block : UInt32) (off : Nat) : Prop
    extends CtzList c dev (Function.update addr i block) (i + 1) where
  next : Locates c.blockSize.toNat content.length i off
  byte : ∀ pos (h : pos < content.length) j o, Locates c.blockSize.toNat pos j o →
    dev (Function.update addr i block j).toNat o = content[pos]

section Loops

variable {σ : Type} {bd : Blocks σ} {c : LfsConfig} {live : UInt32 → Prop}
  {shows : σ → Device UInt8 → Option (UInt32 × Nat) → Prop} {s s' : σ} {dev : Device UInt8}
  {cur : Option (UInt32 × Nat)} {head nblock : UInt32} {i k : Nat}

theorem ctzCopy_spec (hl : bd.Lawful c live shows) (hhead : head < c.blockCount) (hlive : live head)
    (hnblock : nblock < c.blockCount) (hfree : ¬live nblock) (hs : shows s dev cur)
    (hcur : Continues cur nblock i) (hfit : i + k ≤ c.blockSize.toNat) {r : Outcome Unit}
    (h : ctzCopy bd head nblock i k s = some (r, s')) :
    r.Ensures
      (fun _ => ∃ dev' cur', shows s' dev' cur' ∧ Continues cur' nblock (i + k) ∧
        (∀ b ≠ nblock.toNat, dev' b = dev b) ∧ (∀ o < i, dev' nblock.toNat o = dev nblock.toNat o) ∧
        ∀ o, i ≤ o → o < i + k → dev' nblock.toNat o = dev head.toNat o)
      (fun _ => ∃ dev', shows (bd.drop s') dev' none ∧ ∀ b ≠ nblock.toNat, dev' b = dev b) := by
  induction k generalizing i s dev cur with
  | zero =>
    rw [ctzCopy] at h
    cases h
    refine ⟨dev, cur, hs, hcur, fun _ _ => rfl, fun _ _ => rfl, fun o h₁ h₂ => ?_⟩
    exact absurd h₂ (Nat.not_lt_of_le h₁)
  | succ k ih =>
    have hhead' : head.toNat ≠ nblock.toNat := fun heq => hfree (UInt32.toNat_inj.mp heq ▸ hlive)
    rw [ctzCopy] at h
    split at h
    · cases h
    · cases h
      exact trivial
    · rename_i data s₁ hread
      obtain ⟨hs₁, rfl⟩ := hl.read hs hhead hlive ⟨by omega, by omega⟩ (by omega) (by omega) hread
      split at h
      · cases h
      · rename_i err s₂ hprog
        have hres := hl.prog hs₁ hnblock hfree hcur (by rw [Device.read_length]; omega) hprog
        rw [Device.read_length] at hres
        split at h
        · rename_i hcorrupt
          cases h
          rcases hres with ⟨rfl, -⟩ | ⟨-, hdrop⟩
          · exact absurd hcorrupt (by decide)
          · exact hdrop
        · split at h
          · cases h
            exact trivial
          · rename_i hok
            obtain ⟨-, hs₂⟩ := hres.resolve_right fun hneg => hok (by omega)
            have hother : ∀ b ≠ nblock.toNat,
                dev.prog nblock.toNat i (dev.read head.toNat i 1) b = dev b := by
              intro b hb
              funext o
              exact dev.prog_outside (.inl hb)
            have hrec := ih hs₂ (.inr rfl) (by omega) h
            cases r with
            | failed err => exact trivial
            | relocate _ =>
              obtain ⟨dev', hs', hframe⟩ := hrec
              exact ⟨dev', hs', fun b hb => (hframe b hb).trans (hother b hb)⟩
            | done _ =>
              obtain ⟨dev', cur', hs', hcur', hframe, hbefore, hafter⟩ := hrec
              refine ⟨dev', cur', hs', by rwa [Nat.add_assoc, Nat.add_comm 1] at hcur',
                fun b hb => (hframe b hb).trans (hother b hb), fun o ho => ?_, fun o h₁ h₂ => ?_⟩
              · rw [hbefore o (by omega)]
                exact dev.prog_outside (.inr (.inl ho))
              · by_cases ho : o = i
                · subst ho
                  rw [hbefore o (Nat.lt_succ_self o),
                    dev.prog_inside (Nat.le_refl o) (by rw [Device.read_length]; omega)]
                  simp [Device.read]
                · rw [hafter o (by omega) (by omega), hother head.toNat hhead']

variable {addr : Nat → UInt32} {n : Nat} {dev₁ : Device UInt8}

/-- Pointers `i` to `i + k - 1` of the new block are written, to the blocks of a list. -/
def PointersDone (shows : σ → Device UInt8 → Option (UInt32 × Nat) → Prop) (addr : Nat → UInt32) (n : Nat)
    (nblock : UInt32) (dev dev₁ : Device UInt8) (i k : Nat) (s : σ) : Prop :=
  ∃ dev' cur', shows s dev' cur' ∧ Continues cur' nblock (4 * (i + k)) ∧
    (∀ b ≠ nblock.toNat, dev' b = dev b) ∧
    (∀ o < 4 * i, dev' nblock.toNat o = dev₁ nblock.toNat o) ∧
    ∀ j, i ≤ j → j < i + k → dev'.read nblock.toNat (4 * j) 4 = le32 (addr (n - 2 ^ j))

theorem PointersDone.cons {dev₂ : Device UInt8}
    (h : PointersDone shows addr n nblock dev dev₂ (i + 1) k s)
    (hbefore : ∀ o < 4 * i, dev₂ nblock.toNat o = dev₁ nblock.toNat o)
    (hword : dev₂.read nblock.toNat (4 * i) 4 = le32 (addr (n - 2 ^ i))) :
    PointersDone shows addr n nblock dev dev₁ i (k + 1) s := by
  obtain ⟨dev', cur', hs', hcur', hframe, hbefore', hafter⟩ := h
  refine ⟨dev', cur', hs', by rwa [Nat.add_assoc, Nat.add_comm 1] at hcur', hframe,
    fun o ho => (hbefore' o (by omega)).trans (hbefore o ho), fun j h₁ h₂ => ?_⟩
  by_cases hj : j = i
  · subst hj
    rw [← hword]
    exact Device.read_congr fun o ho => hbefore' _ (by omega)
  · exact hafter j (by omega) (by omega)

theorem CtzList.pointerAt_next (hlist : CtzList c dev addr n) (hn : n ≠ 0) (hi : i + 1 ≤ trailing n) :
    pointerAt dev (addr (n - 2 ^ i)) i = addr (n - 2 ^ (i + 1)) := by
  have hthis := heads_eq hlist.linked hn (Nat.le_of_succ_le hi)
  have hsucc := heads_eq hlist.linked hn hi
  rwa [heads, hthis] at hsucc

theorem ctzPointers_spec (hl : bd.Lawful c live shows) (hlist : CtzList c dev addr n)
    (hlive : ∀ j < n, live (addr j)) (hnblock : nblock < c.blockCount) (hfree : ¬live nblock)
    (hn : n ≠ 0) (hfit : header 4 n ≤ c.blockSize.toNat) (hs : shows s dev₁ cur)
    (hcur : Continues cur nblock (4 * i)) (hsame : ∀ b ≠ nblock.toNat, dev₁ b = dev b)
    (hk : i + k = trailing n + 1) {r : Outcome UInt32}
    (h : ctzPointers bd c nblock (addr (n - 2 ^ i)) i k s = some (r, s')) :
    r.Ensures (fun _ => PointersDone shows addr n nblock dev dev₁ i k s')
      (fun head => (∃ j, i ≤ j ∧ j < i + k ∧ head = addr (n - 2 ^ j)) ∧
        ∃ dev', shows (bd.drop s') dev' none ∧ ∀ b ≠ nblock.toNat, dev' b = dev b) := by
  induction k generalizing i s dev₁ cur with
  | zero =>
    rw [ctzPointers] at h
    cases h
    refine ⟨dev₁, cur, hs, hcur, hsame, fun _ _ => rfl, fun j h₁ h₂ => ?_⟩
    exact absurd h₂ (Nat.not_lt_of_le h₁)
  | succ k ih =>
    have hi : i ≤ trailing n := by omega
    have hpow : 2 ^ i ≤ n :=
      Nat.le_trans (Nat.pow_le_pow_right (by decide) hi) (two_pow_trailing_le hn)
    have hpos := Nat.two_pow_pos i
    have hroom : 4 * i + 4 ≤ c.blockSize.toNat := by
      obtain ⟨m, rfl⟩ := Nat.exists_eq_succ_of_ne_zero hn
      rw [header] at hfit
      simp only [Nat.succ_eq_add_one] at hi
      omega
    rw [ctzPointers] at h
    split at h
    · cases h
    · rename_i err s₁ hprog
      have hres := hl.prog hs hnblock hfree hcur
        (show 4 * i + (le32 (addr (n - 2 ^ i))).length ≤ _ from hroom) hprog
      split at h
      · rename_i hcorrupt
        cases h
        refine ⟨⟨i, Nat.le_refl i, by omega, rfl⟩, ?_⟩
        rcases hres with ⟨rfl, -⟩ | ⟨-, dev', hs', hframe⟩
        · exact absurd hcorrupt (by decide)
        · exact ⟨dev', hs', fun b hb => (hframe b hb).trans (hsame b hb)⟩
      · split at h
        · cases h
          exact trivial
        · rename_i hok
          obtain ⟨-, hs₁⟩ := hres.resolve_right fun hneg => hok (by omega)
          have hother : ∀ b ≠ nblock.toNat,
              dev₁.prog nblock.toNat (4 * i) (le32 (addr (n - 2 ^ i))) b = dev b := by
            intro b hb
            rw [← hsame b hb]
            funext o
            exact dev₁.prog_outside (.inl hb)
          have hbefore : ∀ o < 4 * i, dev₁.prog nblock.toNat (4 * i) (le32 (addr (n - 2 ^ i)))
              nblock.toNat o = dev₁ nblock.toNat o :=
            fun o ho => dev₁.prog_outside (.inr (.inl ho))
          have hword : (dev₁.prog nblock.toNat (4 * i) (le32 (addr (n - 2 ^ i)))).read nblock.toNat
              (4 * i) 4 = le32 (addr (n - 2 ^ i)) :=
            dev₁.read_prog nblock.toNat (4 * i) (i := 0) (Nat.le_refl 4)
          split at h
          · rename_i hlast
            subst hlast
            split at h
            · cases h
              exact PointersDone.cons ⟨_, _, hs₁, .inr rfl, hother, fun _ _ => rfl,
                fun j h₁ h₂ => absurd h₂ (Nat.not_lt_of_le h₁)⟩ hbefore hword
            · cases h
          · rename_i hmore
            have hnode : live (addr (n - 2 ^ i)) := hlive _ (by omega)
            have hnode' : (addr (n - 2 ^ i)).toNat ≠ nblock.toNat :=
              fun heq => hfree (UInt32.toNat_inj.mp heq ▸ hnode)
            split at h
            · cases h
            · cases h
              exact trivial
            · rename_i data s₂ hread
              obtain ⟨hs₂, rfl⟩ :=
                hl.read hs₁ (hlist.lt _ (by omega)) hnode ⟨by decide, by omega⟩ (by decide) hroom hread
              have hnext := hlist.pointerAt_next hn (show i + 1 ≤ trailing n by omega)
              rw [Device.read_congr fun o _ => congrFun (hother _ hnode') _,
                show lfsFromle32 (dev.read _ _ _) = _ from hnext] at h
              simp only at h
              split at h
              · have hrec := ih hs₂ (.inr (by rw [Nat.mul_succ]; rfl)) hother (by omega) h
                cases r with
                | failed err => exact trivial
                | relocate head =>
                  obtain ⟨⟨j, hle, hlt, rfl⟩, hdrop⟩ := hrec
                  exact ⟨⟨j, by omega, by omega, rfl⟩, hdrop⟩
                | done head => exact PointersDone.cons hrec hbefore hword
              · cases h

end Loops

/-! ## The extended list -/

section Extended

variable {c : LfsConfig} {dev dev' : Device UInt8} {addr : Nat → UInt32} {n : Nat}
  {content : List UInt8} {block : UInt32} {last off : Nat}

theorem Locates.next {B pos i off : Nat} (h : Locates B pos i off) (hoff : off + 1 < B) :
    Locates B (pos + 1) i (off + 1) := by
  obtain ⟨heq, hle, -⟩ := h
  exact ⟨by omega, by omega, hoff⟩

theorem kept_of_frame (hfresh : ∀ j < n, addr j ≠ block)
    (hframe : ∀ b ≠ block.toNat, dev' b = dev b) {j : Nat} (hj : j < n) :
    dev' (addr j).toNat = dev (addr j).toNat :=
  hframe _ fun heq => hfresh j hj (UInt32.toNat_inj.mp heq)

theorem Extended.first (hB : 104 ≤ c.blockSize.toNat) (hge : 2 ≤ block) (hlt : block < c.blockCount) :
    Extended c dev addr [] 0 block 0 where
  le := by decide
  ge i hi := by
    obtain rfl : i = 0 := by omega
    rwa [Function.update_self]
  lt i hi := by
    obtain rfl : i = 0 := by omega
    rwa [Function.update_self]
  pointer i hi hne := absurd (show i = 0 by omega) hne
  next := ⟨rfl, Nat.le_refl _, by omega⟩
  byte pos h := absurd h (Nat.not_lt_zero pos)

theorem CtzFile.extended_copy (h : CtzFile c dev addr (last + 1) content) (hne : content ≠ [])
    (hlast : Locates c.blockSize.toNat (content.length - 1) last off) (hroom : off + 1 < c.blockSize.toNat)
    (hge : 2 ≤ block) (hlt : block < c.blockCount) (hfresh : ∀ j < last + 1, addr j ≠ block)
    (hframe : ∀ b ≠ block.toNat, dev' b = dev b)
    (hcopy : ∀ o < off + 1, dev' block.toNat o = dev (addr last).toNat o) :
    Extended c dev' addr content last block (off + 1) := by
  have hlen := List.length_pos_iff.mpr hne
  have hupdate : ∀ j < last, Function.update addr last block j = addr j :=
    fun j hj => Function.update_of_ne (by omega) _ _
  have hnext := hlast.next hroom
  rw [Nat.sub_add_cancel hlen] at hnext
  refine { le := h.le, ge := ?_, lt := ?_, pointer := ?_, next := hnext, byte := ?_ }
  · intro i hi
    by_cases heq : i = last
    · rwa [heq, Function.update_self]
    · rw [hupdate i (by omega)]
      exact h.ge i hi
  · intro i hi
    by_cases heq : i = last
    · rwa [heq, Function.update_self]
    · rw [hupdate i (by omega)]
      exact h.lt i hi
  · intro i hi hne k hk
    have hpow := Nat.two_pow_pos k
    rw [hupdate (i - 2 ^ k) (by omega), ← h.pointer i hi hne k hk]
    by_cases heq : i = last
    · subst heq
      rw [Function.update_self]
      obtain ⟨m, rfl⟩ := Nat.exists_eq_succ_of_ne_zero hne
      have hheader := hlast.header_le
      rw [header] at hheader
      simp only [Nat.succ_eq_add_one] at hk
      have hbefore : ∀ o < 4, dev' block.toNat (4 * k + o) = dev (addr (m + 1)).toNat (4 * k + o) :=
        fun o ho => hcopy _ (by omega)
      exact List.map_congr_left fun o ho => hbefore o (List.mem_range.mp ho)
    · rw [hupdate i (by omega)]
      exact Device.read_congr fun o _ => congrFun (kept_of_frame hfresh hframe hi) _
  · intro pos hpos j o hloc
    rw [← h.byte pos hpos j o hloc]
    have hj := hloc.mono hlast (by omega)
    by_cases heq : j = last
    · subst heq
      rw [Function.update_self]
      have := hloc.off_eq
      have := hlast.off_eq
      exact hcopy o (by omega)
    · rw [hupdate j (by omega)]
      exact congrFun (kept_of_frame hfresh hframe (by omega)) o

theorem CtzFile.full (h : CtzFile c dev addr (last + 1) content) (hB : 104 ≤ c.blockSize.toNat)
    (hfull : content.length = start 4 c.blockSize.toNat (last + 1)) :
    last + 1 < 2 ^ 26 ∧ header 4 (last + 1) + 12 ≤ c.blockSize.toNat := by
  have hstart := start_succ_eq hB (show last < 2 ^ 26 from h.le)
  have hlimit := h.limit
  have hsize := h.size
  have hindex : last + 1 < 2 ^ ((c.blockSize.toNat - 12) / 4) := by
    rw [ctzLimit] at hlimit
    refine Nat.lt_of_mul_lt_mul_left (a := c.blockSize.toNat - 8) ?_
    omega
  have hmul : 96 * (last + 1) ≤ (c.blockSize.toNat - 8) * (last + 1) :=
    Nat.mul_le_mul_right _ (by omega)
  have htrail : trailing (last + 1) < (c.blockSize.toNat - 12) / 4 :=
    (Nat.pow_lt_pow_iff_right (by decide)).mp
      (Nat.lt_of_le_of_lt (two_pow_trailing_le (Nat.succ_ne_zero last)) hindex)
  rw [header]
  omega

theorem CtzFile.extended_append (h : CtzFile c dev addr (last + 1) content)
    (hB : 104 ≤ c.blockSize.toNat) (hlast : Locates c.blockSize.toNat (content.length - 1) last off)
    (hfull : content.length = start 4 c.blockSize.toNat (last + 1)) (hge : 2 ≤ block)
    (hlt : block < c.blockCount) (hfresh : ∀ j < last + 1, addr j ≠ block)
    (hframe : ∀ b ≠ block.toNat, dev' b = dev b)
    (hptr : ∀ k ≤ trailing (last + 1), dev'.read block.toNat (4 * k) 4 = le32 (addr (last + 1 - 2 ^ k))) :
    Extended c dev' addr content (last + 1) block (header 4 (last + 1)) := by
  obtain ⟨hn, hheader⟩ := h.full hB hfull
  have hupdate : ∀ j < last + 1, Function.update addr (last + 1) block j = addr j :=
    fun j hj => Function.update_of_ne (by omega) _ _
  refine { le := hn, ge := ?_, lt := ?_, pointer := ?_,
           next := ⟨by rw [hfull], Nat.le_refl _, by omega⟩, byte := ?_ }
  · intro i hi
    by_cases heq : i = last + 1
    · rwa [heq, Function.update_self]
    · rw [hupdate i (by omega)]
      exact h.ge i (by omega)
  · intro i hi
    by_cases heq : i = last + 1
    · rwa [heq, Function.update_self]
    · rw [hupdate i (by omega)]
      exact h.lt i (by omega)
  · intro i hi hne k hk
    have hpow := Nat.two_pow_pos k
    rw [hupdate (i - 2 ^ k) (by omega)]
    by_cases heq : i = last + 1
    · subst heq
      rw [Function.update_self]
      exact hptr k hk
    · rw [hupdate i (by omega), ← h.pointer i (by omega) hne k hk]
      exact Device.read_congr fun o _ => congrFun (kept_of_frame hfresh hframe (by omega)) _
  · intro pos hpos j o hloc
    have hj := hloc.mono hlast (by omega)
    rw [← h.byte pos hpos j o hloc, hupdate j (by omega)]
    exact congrFun (kept_of_frame hfresh hframe (by omega)) o

theorem CtzFile.of_frame (h : CtzFile c dev addr n content)
    (hframe : ∀ j < n, dev' (addr j).toNat = dev (addr j).toNat) : CtzFile c dev' addr n content := by
  refine { h with pointer := ?_, byte := ?_ }
  · intro i hi hne k hk
    rw [← h.pointer i hi hne k hk]
    exact Device.read_congr fun o _ => congrFun (hframe i hi) _
  · intro pos hpos j o hloc
    rw [← h.byte pos hpos j o hloc]
    obtain ⟨last, off, rfl, hlast⟩ := h.last (List.ne_nil_of_length_pos (by omega))
    exact congrFun (hframe j (Nat.lt_succ_of_le (hloc.mono hlast (by omega)))) o

end Extended

/-! ## One turn -/

section Turn

variable {σ : Type} {bd : Blocks σ} {c : LfsConfig} {live : UInt32 → Prop}
  {shows : σ → Device UInt8 → Option (UInt32 × Nat) → Prop} {s s' : σ} {dev : Device UInt8}
  {addr : Nat → UInt32} {content : List UInt8} {last off : Nat} {size : UInt32}

def Keeps (live : UInt32 → Prop) (dev dev' : Device UInt8) : Prop :=
  ∀ b, live b → dev' b.toNat = dev b.toNat

theorem Keeps.of_frame {dev' : Device UInt8} {block : UInt32} (hfree : ¬live block)
    (hframe : ∀ b ≠ block.toNat, dev' b = dev b) : Keeps live dev dev' :=
  fun _ hb => hframe _ fun heq => hfree (UInt32.toNat_inj.mp heq ▸ hb)

theorem Keeps.trans {dev' dev'' : Device UInt8} (h : Keeps live dev dev') (h' : Keeps live dev' dev'') :
    Keeps live dev dev'' := fun _ hb => (h' _ hb).trans (h _ hb)

/-- A block has been taken and erased, or is to be given up. -/
def Erased (bd : Blocks σ) (s : σ) (nblock : UInt32) (s₂ : σ) : Prop :=
  2 ≤ nblock ∧ ∃ s₁ err, bd.alloc s = some (.ok nblock, s₁) ∧ bd.erase nblock s₁ = some (err, s₂)

theorem Erased.spec (hl : bd.Lawful c live shows) {dev : Device UInt8} (hs : shows s dev none)
    {nblock : UInt32} {s₂ : σ} (h : Erased bd s nblock s₂) :
    nblock < c.blockCount ∧ ¬live nblock ∧
      ∃ dev', shows s₂ dev' none ∧ ∀ b ≠ nblock.toNat, dev' b = dev b := by
  obtain ⟨-, s₁, err, halloc, herase⟩ := h
  obtain ⟨hs₁, hlt, hfree⟩ := hl.alloc hs halloc
  refine ⟨hlt, hfree, ?_⟩
  rcases hl.erase hs₁ hlt hfree herase with ⟨-, hs₂⟩ | ⟨-, hs₂⟩
  · refine ⟨_, hs₂, fun b hb => ?_⟩
    funext o
    exact if_neg hb
  · exact hs₂

inductive TurnRun (bd : Blocks σ) (c : LfsConfig) (head size : UInt32) (s : σ) :
    Outcome (UInt32 × UInt32) → σ → Prop where
  | failed {err : Int} {s' : σ} : TurnRun bd c head size s (.failed err) s'
  | bad {nblock : UInt32} {s' : σ} (h : Erased bd s nblock s') :
      TurnRun bd c head size s (.relocate (head, size)) s'
  | first {nblock : UInt32} {s' : σ} (h : Erased bd s nblock s') (hzero : size = 0) :
      TurnRun bd c head size s (.done (nblock, 0)) s'
  | copied {nblock : UInt32} {s₁ s' : σ} (h : Erased bd s nblock s₁) (hsize : size ≠ 0)
      (hpart : (lfsCtzIndex c (size - 1)).2 + 1 ≠ c.blockSize)
      (hcopy : ctzCopy bd head nblock 0 ((lfsCtzIndex c (size - 1)).2 + 1).toNat s₁ = some (.done (), s')) :
      TurnRun bd c head size s (.done (nblock, (lfsCtzIndex c (size - 1)).2 + 1)) s'
  | copyLost {nblock : UInt32} {s₁ s' : σ} (h : Erased bd s nblock s₁) (hsize : size ≠ 0)
      (hpart : (lfsCtzIndex c (size - 1)).2 + 1 ≠ c.blockSize)
      (hcopy : ctzCopy bd head nblock 0 ((lfsCtzIndex c (size - 1)).2 + 1).toNat s₁ =
        some (.relocate (), s')) :
      TurnRun bd c head size s (.relocate (head, (lfsCtzIndex c (size - 1)).2 + 1)) s'
  | pointed {nblock head' : UInt32} {s₁ s' : σ} (h : Erased bd s nblock s₁) (hsize : size ≠ 0)
      (hfull : (lfsCtzIndex c (size - 1)).2 + 1 = c.blockSize)
      (hptrs : ctzPointers bd c nblock head 0 (lfsCtz ((lfsCtzIndex c (size - 1)).1 + 1) + 1).toNat s₁ =
        some (.done head', s')) :
      TurnRun bd c head size s (.done (nblock, 4 * (lfsCtz ((lfsCtzIndex c (size - 1)).1 + 1) + 1))) s'
  | pointersLost {nblock head' : UInt32} {s₁ s' : σ} (h : Erased bd s nblock s₁) (hsize : size ≠ 0)
      (hfull : (lfsCtzIndex c (size - 1)).2 + 1 = c.blockSize)
      (hptrs : ctzPointers bd c nblock head 0 (lfsCtz ((lfsCtzIndex c (size - 1)).1 + 1) + 1).toNat s₁ =
        some (.relocate head', s')) :
      TurnRun bd c head size s (.relocate (head', (lfsCtzIndex c (size - 1)).2 + 1)) s'

theorem ctzExtendTurn_run {head : UInt32} {r : Outcome (UInt32 × UInt32)}
    (hturn : ctzExtendTurn bd c head size s = some (r, s')) : TurnRun bd c head size s r s' := by
  rw [ctzExtendTurn] at hturn
  split at hturn
  · cases hturn
  · cases hturn
    exact .failed
  · rename_i nblock s₁ halloc
    split at hturn
    · rename_i hrange
      split at hturn
      · cases hturn
      · rename_i err s₂ herase
        have herased : Erased bd s nblock s₂ := ⟨hrange.1, s₁, err, halloc, herase⟩
        split at hturn
        · cases hturn
          exact .bad herased
        · split at hturn
          · cases hturn
            exact .failed
          · split at hturn
            · rename_i hzero
              cases hturn
              exact .first herased hzero
            · rename_i hsize
              simp only at hturn
              split at hturn
              · rename_i hpart
                split at hturn
                · cases hturn
                · cases hturn
                  exact .failed
                · rename_i hcopy
                  cases hturn
                  exact .copyLost herased hsize hpart hcopy
                · rename_i hcopy
                  cases hturn
                  exact .copied herased hsize hpart hcopy
              · rename_i hfull
                split at hturn
                · cases hturn
                · cases hturn
                  exact .failed
                · rename_i hptrs
                  cases hturn
                  exact .pointersLost herased hsize (not_not.mp hfull) hptrs
                · rename_i hptrs
                  cases hturn
                  exact .pointed herased hsize (not_not.mp hfull) hptrs
    · cases hturn

theorem CtzFile.skips (h : CtzFile c dev addr (last + 1) content) (hB : 104 ≤ c.blockSize.toNat)
    (hne : content ≠ []) (hlast : Locates c.blockSize.toNat (content.length - 1) last off)
    (hblock : off + 1 = c.blockSize.toNat) {index : UInt32} (hindex : index.toNat ≤ last)
    (hskip : trailing (index.toNat + 1) = trailing (last + 1)) :
    content.length = start 4 c.blockSize.toNat (last + 1) ∧
      (lfsCtz (index + 1) + 1).toNat = trailing (last + 1) + 1 ∧
      (4 * (lfsCtz (index + 1) + 1)).toNat = header 4 (last + 1) := by
  have hend := hlast.off_eq
  have hlen := List.length_pos_iff.mpr hne
  have hstart : content.length = start 4 c.blockSize.toNat (last + 1) := by
    have := hlast.header_le
    rw [start]
    omega
  obtain ⟨hn, -⟩ := h.full hB hstart
  have htrail : trailing (last + 1) < 26 := trailing_lt (Nat.succ_ne_zero last) hn
  have hone : (index + 1).toNat = index.toNat + 1 := by
    rw [UInt32.toNat_add]
    exact Nat.mod_eq_of_lt (by show _ + 1 < _; omega)
  have hskips : (lfsCtz (index + 1) + 1).toNat = trailing (last + 1) + 1 := by
    rw [UInt32.toNat_add, lfsCtz_toNat (toNat_ne_zero.mpr (by omega)), hone, hskip]
    exact Nat.mod_eq_of_lt (by show _ + 1 < _; omega)
  refine ⟨hstart, hskips, ?_⟩
  rw [UInt32.toNat_mul, hskips, header]
  exact Nat.mod_eq_of_lt (by show 4 * (_ + 1) < _; omega)

theorem CtzFile.copied (hl : bd.Lawful c live shows) (h : CtzFile c dev addr (last + 1) content)
    (hne : content ≠ []) (hlast : Locates c.blockSize.toNat (content.length - 1) last off)
    (hlive : ∀ j < last + 1, live (addr j)) {nblock : UInt32} (hge : 2 ≤ nblock)
    (hlt : nblock < c.blockCount) (hfree : ¬live nblock) (hfresh : ∀ j < last + 1, addr j ≠ nblock)
    (hs : shows s dev none) (hroom : off + 1 < c.blockSize.toNat) {r : Outcome Unit}
    (hcopy : ctzCopy bd (addr last) nblock 0 (off + 1) s = some (r, s')) :
    r.Ensures
      (fun _ => ∃ dev' cur', shows s' dev' cur' ∧ Continues cur' nblock (off + 1) ∧ Keeps live dev dev' ∧
        Extended c dev' addr content last nblock (off + 1))
      (fun _ => ∃ dev', shows (bd.drop s') dev' none ∧ Keeps live dev dev') := by
  have hspec := ctzCopy_spec hl (h.lt last (Nat.lt_succ_self last)) (hlive last (Nat.lt_succ_self last))
    hlt hfree hs (.inl ⟨rfl, rfl⟩) (by omega) hcopy
  cases r with
  | failed err => exact trivial
  | relocate _ =>
    obtain ⟨dev', hs', hframe⟩ := hspec
    exact ⟨dev', hs', .of_frame hfree hframe⟩
  | done _ =>
    obtain ⟨dev', cur', hs', hcur', hframe, -, hcopied⟩ := hspec
    exact ⟨dev', cur', hs', by rwa [Nat.zero_add] at hcur', .of_frame hfree hframe,
      h.extended_copy hne hlast hroom hge hlt hfresh hframe fun o ho => hcopied o (Nat.zero_le o) (by omega)⟩

theorem CtzFile.pointed (hl : bd.Lawful c live shows) (h : CtzFile c dev addr (last + 1) content)
    (hB : 104 ≤ c.blockSize.toNat) (hlast : Locates c.blockSize.toNat (content.length - 1) last off)
    (hfull : content.length = start 4 c.blockSize.toNat (last + 1)) (hlive : ∀ j < last + 1, live (addr j))
    {nblock : UInt32} (hge : 2 ≤ nblock) (hlt : nblock < c.blockCount) (hfree : ¬live nblock)
    (hfresh : ∀ j < last + 1, addr j ≠ nblock) (hs : shows s dev none) {r : Outcome UInt32}
    (hptrs : ctzPointers bd c nblock (addr last) 0 (trailing (last + 1) + 1) s = some (r, s')) :
    r.Ensures
      (fun _ => ∃ dev' cur', shows s' dev' cur' ∧ Continues cur' nblock (header 4 (last + 1)) ∧
        Keeps live dev dev' ∧ Extended c dev' addr content (last + 1) nblock (header 4 (last + 1)))
      (fun head => (trailing (last + 1) = 0 → head = addr last) ∧
        ∃ dev', shows (bd.drop s') dev' none ∧ Keeps live dev dev') := by
  obtain ⟨-, hheader⟩ := h.full hB hfull
  have hspec := ctzPointers_spec hl h.toCtzList hlive hlt hfree (Nat.succ_ne_zero last) (by omega) hs
    (.inl ⟨rfl, rfl⟩) (fun _ _ => rfl) (i := 0) (Nat.zero_add _) hptrs
  cases r with
  | failed err => exact trivial
  | relocate head =>
    obtain ⟨⟨j, -, hj, rfl⟩, dev', hs', hframe⟩ := hspec
    refine ⟨fun hodd => ?_, dev', hs', .of_frame hfree hframe⟩
    obtain rfl : j = 0 := by omega
    rfl
  | done _ =>
    obtain ⟨dev', cur', hs', hcur', hframe, -, hwords⟩ := hspec
    exact ⟨dev', cur', hs', by rwa [Nat.zero_add] at hcur', .of_frame hfree hframe,
      h.extended_append hB hlast hfull hge hlt hfresh hframe
        fun k hk => hwords k (Nat.zero_le k) (by omega)⟩

theorem ctzExtendTurn_spec (hl : bd.Lawful c live shows) (h : CtzFile c dev addr (last + 1) content)
    (hB : 104 ≤ c.blockSize.toNat) (hne : content ≠ [])
    (hlast : Locates c.blockSize.toNat (content.length - 1) last off)
    (hlive : ∀ j < last + 1, live (addr j)) (hs : shows s dev none) (hsize : size ≠ 0)
    (hindex : (lfsCtzIndex c (size - 1)).1.toNat ≤ last)
    (hoff : (lfsCtzIndex c (size - 1)).2.toNat = off)
    (hskip : off + 1 = c.blockSize.toNat →
      trailing ((lfsCtzIndex c (size - 1)).1.toNat + 1) = trailing (last + 1))
    {r : Outcome (UInt32 × UInt32)} (hturn : ctzExtendTurn bd c (addr last) size s = some (r, s')) :
    r.Ensures
      (fun res => ∃ dev' cur' i, shows s' dev' cur' ∧ Continues cur' res.1 res.2.toNat ∧
        Keeps live dev dev' ∧ ¬live res.1 ∧ Extended c dev' addr content i res.1 res.2.toNat)
      (fun res => ∃ dev', shows (bd.drop s') dev' none ∧ Keeps live dev dev' ∧
        (res = (addr last, size) ∨ res.2.toNat = off + 1 ∧
          (off + 1 = c.blockSize.toNat → trailing (last + 1) = 0 → res.1 = addr last) ∧
          (off + 1 ≠ c.blockSize.toNat → res.1 = addr last))) := by
  have hfresh : ∀ {block}, ¬live block → ∀ j < last + 1, addr j ≠ block := by
    rintro _ hfree j hj rfl
    exact hfree (hlive j hj)
  have hofflt := hlast.off_lt
  have hsucc : ((lfsCtzIndex c (size - 1)).2 + 1).toNat = off + 1 := by
    have := c.blockSize.toNat_lt
    rw [UInt32.toNat_add, hoff]
    exact Nat.mod_eq_of_lt (by show off + 1 < _; omega)
  have herased : ∀ {nblock s₁}, Erased bd s nblock s₁ → nblock < c.blockCount ∧ ¬live nblock ∧
      ∃ dev₁, shows s₁ dev₁ none ∧ Keeps live dev dev₁ ∧ CtzFile c dev₁ addr (last + 1) content := by
    intro nblock s₁ he
    obtain ⟨hlt, hfree, dev₁, hs₁, hframe⟩ := he.spec hl hs
    have hkeep := Keeps.of_frame hfree hframe
    exact ⟨hlt, hfree, dev₁, hs₁, hkeep, h.of_frame fun j hj => hkeep (addr j) (hlive j hj)⟩
  have hroom : (lfsCtzIndex c (size - 1)).2 + 1 ≠ c.blockSize → off + 1 ≠ c.blockSize.toNat :=
    fun hpart heq => hpart (UInt32.toNat_inj.mp (hsucc.trans heq))
  have hfull : (lfsCtzIndex c (size - 1)).2 + 1 = c.blockSize → off + 1 = c.blockSize.toNat :=
    fun heq => by rw [← hsucc, heq]
  cases ctzExtendTurn_run hturn with
  | failed => exact trivial
  | bad he =>
    obtain ⟨-, -, dev₁, hs₁, hkeep, -⟩ := herased he
    exact ⟨dev₁, hl.drop hs₁, hkeep, .inl rfl⟩
  | first _ hzero => exact absurd hzero hsize
  | copied he _ hpart hcopy =>
    obtain ⟨hlt, hfree, dev₁, hs₁, hkeep, hfile⟩ := herased he
    rw [hsucc] at hcopy
    obtain ⟨dev₂, cur₂, hs₂, hcur₂, hkeep₂, hext⟩ :=
      hfile.copied hl hne hlast hlive he.1 hlt hfree (hfresh hfree) hs₁
        (Nat.lt_of_le_of_ne hofflt (hroom hpart)) hcopy
    rw [← hsucc] at hcur₂ hext
    exact ⟨dev₂, cur₂, last, hs₂, hcur₂, hkeep.trans hkeep₂, hfree, hext⟩
  | copyLost he _ hpart hcopy =>
    obtain ⟨hlt, hfree, dev₁, hs₁, hkeep, hfile⟩ := herased he
    rw [hsucc] at hcopy
    obtain ⟨dev₂, hs₂, hkeep₂⟩ :=
      hfile.copied hl hne hlast hlive he.1 hlt hfree (hfresh hfree) hs₁
        (Nat.lt_of_le_of_ne hofflt (hroom hpart)) hcopy
    exact ⟨dev₂, hs₂, hkeep.trans hkeep₂,
      .inr ⟨hsucc, fun heq => absurd heq (hroom hpart), fun _ => rfl⟩⟩
  | pointed he _ hblock hptrs =>
    obtain ⟨hlt, hfree, dev₁, hs₁, hkeep, hfile⟩ := herased he
    obtain ⟨hstart, hskips, hhead⟩ := h.skips hB hne hlast (hfull hblock) hindex (hskip (hfull hblock))
    rw [hskips] at hptrs
    obtain ⟨dev₂, cur₂, hs₂, hcur₂, hkeep₂, hext⟩ :=
      hfile.pointed hl hB hlast hstart hlive he.1 hlt hfree (hfresh hfree) hs₁ hptrs
    rw [← hhead] at hcur₂ hext
    exact ⟨dev₂, cur₂, last + 1, hs₂, hcur₂, hkeep.trans hkeep₂, hfree, hext⟩
  | pointersLost he _ hblock hptrs =>
    obtain ⟨hlt, hfree, dev₁, hs₁, hkeep, hfile⟩ := herased he
    obtain ⟨hstart, hskips, -⟩ := h.skips hB hne hlast (hfull hblock) hindex (hskip (hfull hblock))
    rw [hskips] at hptrs
    obtain ⟨hhead, dev₂, hs₂, hkeep₂⟩ :=
      hfile.pointed hl hB hlast hstart hlive he.1 hlt hfree (hfresh hfree) hs₁ hptrs
    exact ⟨dev₂, hs₂, hkeep.trans hkeep₂,
      .inr ⟨hsucc, fun _ => hhead, fun hpart => absurd (hfull hblock) hpart⟩⟩

theorem lfsCtzIndex_small (hB : 104 ≤ c.blockSize.toNat) {pos : UInt32}
    (hpos : pos.toNat < c.blockSize.toNat) :
    (lfsCtzIndex c pos).1.toNat = 0 ∧ (lfsCtzIndex c pos).2.toNat = pos.toNat := by
  have hlimit : pos.toNat < ctzLimit c.blockSize.toNat := by
    have : 2 ^ 1 ≤ 2 ^ ((c.blockSize.toNat - 12) / 4) := Nat.pow_le_pow_right (by decide) (by omega)
    have := Nat.mul_le_mul_left (c.blockSize.toNat - 8) this
    rw [ctzLimit]
    omega
  exact (lfsCtzIndex_spec hB hlimit).index_unique ⟨by simp [start, header], Nat.zero_le _, hpos⟩

/-- Turns after bad blocks, as long as these leave nothing behind that the next one goes wrong with. -/
theorem lfsCtzExtend_run (hl : bd.Lawful c live shows) (h : CtzFile c dev addr (last + 1) content)
    (hB : 104 ≤ c.blockSize.toNat) (hne : content ≠ [])
    (hlast : Locates c.blockSize.toNat (content.length - 1) last off)
    (hlive : ∀ j < last + 1, live (addr j)) {fuel : Nat}
    (hgood : off + 1 = c.blockSize.toNat → trailing (last + 1) ≠ 0 → fuel = 0)
    (hs : shows s dev none) (hsize : size ≠ 0) (hindex : (lfsCtzIndex c (size - 1)).1.toNat ≤ last)
    (hoff : (lfsCtzIndex c (size - 1)).2.toNat = off)
    (hskip : off + 1 = c.blockSize.toNat →
      trailing ((lfsCtzIndex c (size - 1)).1.toNat + 1) = trailing (last + 1))
    {res : UInt32 × UInt32}
    (hrun : lfsCtzExtend bd c fuel (addr last) size s = some (.ok res, s')) :
    ∃ dev' cur' i, shows s' dev' cur' ∧ Continues cur' res.1 res.2.toNat ∧
      Keeps live dev dev' ∧ ¬live res.1 ∧ Extended c dev' addr content i res.1 res.2.toNat := by
  induction fuel generalizing size s dev with
  | zero =>
    rw [lfsCtzExtend] at hrun
    split at hrun
    · cases hrun
    · cases hrun
    · rename_i res' s₁ hturn
      cases hrun
      exact ctzExtendTurn_spec hl h hB hne hlast hlive hs hsize hindex hoff hskip hturn
    · cases hrun
  | succ fuel ih =>
    rw [lfsCtzExtend] at hrun
    split at hrun
    · cases hrun
    · cases hrun
    · rename_i res' s₁ hturn
      cases hrun
      exact ctzExtendTurn_spec hl h hB hne hlast hlive hs hsize hindex hoff hskip hturn
    · rename_i head' size' s₁ hturn
      obtain ⟨dev₁, hs₁, hkeep, hnext⟩ :=
        ctzExtendTurn_spec hl h hB hne hlast hlive hs hsize hindex hoff hskip hturn
      have hfile := h.of_frame fun j hj => hkeep (addr j) (hlive j hj)
      have hgood' : off + 1 = c.blockSize.toNat → trailing (last + 1) = 0 := by
        intro hfull
        by_contra hodd
        exact Nat.succ_ne_zero fuel (hgood hfull hodd)
      have hlast' : ∃ size'' s'', shows s'' dev₁ none ∧ size'' ≠ 0 ∧
          (lfsCtzIndex c (size'' - 1)).1.toNat ≤ last ∧ (lfsCtzIndex c (size'' - 1)).2.toNat = off ∧
          (off + 1 = c.blockSize.toNat →
            trailing ((lfsCtzIndex c (size'' - 1)).1.toNat + 1) = trailing (last + 1)) ∧
          lfsCtzExtend bd c fuel (addr last) size'' s'' = some (.ok res, s') := by
        rcases hnext with heq | ⟨hsize', hfull, hpart⟩
        · cases heq
          exact ⟨size, _, hs₁, hsize, hindex, hoff, hskip, hrun⟩
        · have hhead : head' = addr last := by
            by_cases hblock : off + 1 = c.blockSize.toNat
            · exact hfull hblock (hgood' hblock)
            · exact hpart hblock
          subst hhead
          have hpred : (size' - 1).toNat = off := by
            rw [UInt32.toNat_sub_of_le, hsize']
            · rfl
            · rw [UInt32.le_iff_toNat_le, hsize']
              exact Nat.le_add_left 1 off
          have hsmall : (size' - 1).toNat < c.blockSize.toNat := by
            rw [hpred]
            exact hlast.off_lt
          obtain ⟨hzero, hsame⟩ := lfsCtzIndex_small hB hsmall
          refine ⟨size', _, hs₁, toNat_ne_zero.mpr (by rw [hsize']; exact Nat.succ_pos off),
            by rw [hzero]; exact Nat.zero_le _, by rw [hsame, hpred], fun hblock => ?_, hrun⟩
          rw [hzero, hgood' hblock]
          exact trailing_odd 0 0
      obtain ⟨size'', s'', hs'', hsize'', hindex'', hoff'', hskip'', hrun''⟩ := hlast'
      obtain ⟨dev', cur', i, hs', hcur', hkeep', hfree, hext⟩ :=
        ih hfile (fun hfull hodd => absurd (hgood' hfull) hodd) hs'' hsize'' hindex'' hoff'' hskip'' hrun''
      exact ⟨dev', cur', i, hs', hcur', hkeep.trans hkeep', hfree, hext⟩

theorem lfsCtzExtend_empty (hl : bd.Lawful c live shows) (hB : 104 ≤ c.blockSize.toNat) {fuel : Nat}
    {head : UInt32} (hs : shows s dev none) {res : UInt32 × UInt32}
    (hrun : lfsCtzExtend bd c fuel head 0 s = some (.ok res, s')) :
    ∃ dev' cur', shows s' dev' cur' ∧ Continues cur' res.1 res.2.toNat ∧
      Keeps live dev dev' ∧ ¬live res.1 ∧ Extended c dev' addr [] 0 res.1 res.2.toNat := by
  have hturn : ∀ {s s' : σ} {dev : Device UInt8} {r : Outcome (UInt32 × UInt32)}, shows s dev none →
      ctzExtendTurn bd c head 0 s = some (r, s') → r.Ensures
        (fun res => ∃ dev' cur', shows s' dev' cur' ∧ Continues cur' res.1 res.2.toNat ∧
          Keeps live dev dev' ∧ ¬live res.1 ∧ Extended c dev' addr [] 0 res.1 res.2.toNat)
        (fun res => res = (head, 0) ∧ ∃ dev', shows (bd.drop s') dev' none ∧ Keeps live dev dev') := by
    intro s s' dev r hs h
    cases ctzExtendTurn_run h with
    | failed => exact trivial
    | bad he =>
      obtain ⟨-, hfree, dev₁, hs₁, hframe⟩ := he.spec hl hs
      exact ⟨rfl, dev₁, hl.drop hs₁, .of_frame hfree hframe⟩
    | first he =>
      obtain ⟨hlt, hfree, dev₁, hs₁, hframe⟩ := he.spec hl hs
      exact ⟨dev₁, none, hs₁, .inl ⟨rfl, rfl⟩, .of_frame hfree hframe, hfree, Extended.first hB he.1 hlt⟩
    | copied _ hsize => exact absurd rfl hsize
    | copyLost _ hsize => exact absurd rfl hsize
    | pointed _ hsize => exact absurd rfl hsize
    | pointersLost _ hsize => exact absurd rfl hsize
  induction fuel generalizing s dev with
  | zero =>
    rw [lfsCtzExtend] at hrun
    split at hrun
    · cases hrun
    · cases hrun
    · rename_i heq
      cases hrun
      exact hturn hs heq
    · cases hrun
  | succ fuel ih =>
    rw [lfsCtzExtend] at hrun
    split at hrun
    · cases hrun
    · cases hrun
    · rename_i heq
      cases hrun
      exact hturn hs heq
    · rename_i heq
      obtain ⟨hsame, dev₁, hs₁, hkeep⟩ := hturn hs heq
      cases hsame
      obtain ⟨dev', cur', hs', hcur', hkeep', hres⟩ := ih hs₁ hrun
      exact ⟨dev', cur', hs', hcur', hkeep.trans hkeep', hres⟩

variable {n : Nat}

theorem CtzFile.last_block (h : CtzFile c dev addr n content) (hB : 104 ≤ c.blockSize.toNat)
    (hne : content ≠ []) : ∃ last off, n = last + 1 ∧
      Locates c.blockSize.toNat (content.length - 1) last off ∧
      (lfsCtzIndex c (content.length.toUInt32 - 1)).1.toNat = last ∧
      (lfsCtzIndex c (content.length.toUInt32 - 1)).2.toNat = off ∧
      (off + 1 = c.blockSize.toNat ↔ content.length = start 4 c.blockSize.toNat n) := by
  obtain ⟨-, -, hpred, -⟩ := h.last_index hB hne
  obtain ⟨last, off, rfl, hlast⟩ := h.last hne
  have hlen := List.length_pos_iff.mpr hne
  have hspec := @lfsCtzIndex_spec c (content.length.toUInt32 - 1) hB
    (by rw [hpred]; have := h.limit; omega)
  rw [hpred] at hspec
  obtain ⟨hindex, hoff⟩ := hspec.index_unique hlast
  refine ⟨last, off, rfl, hlast, hindex, hoff, ?_⟩
  obtain ⟨heq, hle, hlt⟩ := hlast
  rw [start]
  omega

/-- The next byte gets a place, and nothing that is live is changed. After a bad block this needs a new
block with one pointer, or a last block that is not full. -/
theorem lfsCtzExtend_extended (hl : bd.Lawful c live shows) (h : CtzFile c dev addr n content)
    (hB : 104 ≤ c.blockSize.toNat) (hlive : ∀ j < n, live (addr j)) {fuel : Nat}
    (hgood : n ≠ 0 → n % 2 = 0 → content.length = start 4 c.blockSize.toNat n → fuel = 0)
    (hs : shows s dev none) {res : UInt32 × UInt32}
    (hrun : lfsCtzExtend bd c fuel (addr (n - 1)) content.length.toUInt32 s = some (.ok res, s')) :
    ∃ dev' cur' i, shows s' dev' cur' ∧ Continues cur' res.1 res.2.toNat ∧
      Keeps live dev dev' ∧ ¬live res.1 ∧ Extended c dev' addr content i res.1 res.2.toNat := by
  by_cases hne : content = []
  · subst hne
    have hempty : ∃ dev' cur', shows s' dev' cur' ∧ Continues cur' res.1 res.2.toNat ∧
        Keeps live dev dev' ∧ ¬live res.1 ∧ Extended c dev' addr [] 0 res.1 res.2.toNat :=
      lfsCtzExtend_empty hl hB hs hrun
    obtain ⟨dev', cur', hres⟩ := hempty
    exact ⟨dev', cur', 0, hres⟩
  · obtain ⟨hsize, -, -, -⟩ := h.last_index hB hne
    obtain ⟨last, off, rfl, hlast, hindex, hoff, hfull⟩ := h.last_block hB hne
    refine lfsCtzExtend_run hl h hB hne hlast hlive (fun hblock htrail => ?_) hs hsize (by omega) hoff
      (fun _ => by rw [hindex]) hrun
    refine hgood (Nat.succ_ne_zero last) ?_ (hfull.mp hblock)
    by_contra hodd
    apply htrail
    rw [show last + 1 = 2 ^ 0 * (2 * (last / 2) + 1) by omega]
    exact trailing_odd 0 (last / 2)

/-- The sizes a turn works with, whatever the operations do. -/
theorem ctzExtendTurn_size {head : UInt32} {r : Outcome (UInt32 × UInt32)}
    (hturn : ctzExtendTurn bd c head size s = some (r, s')) :
    r.Ensures
      (fun res => size ≠ 0 → (lfsCtzIndex c (size - 1)).2 + 1 = c.blockSize →
        res.2 = 4 * (lfsCtz ((lfsCtzIndex c (size - 1)).1 + 1) + 1))
      (fun res => res.2 = size ∨ res.2 = (lfsCtzIndex c (size - 1)).2 + 1) := by
  cases ctzExtendTurn_run hturn with
  | failed => exact trivial
  | bad => exact .inl rfl
  | first _ hzero => exact fun hsize => absurd hzero hsize
  | copied _ _ hpart => exact fun _ hfull => absurd hfull hpart
  | copyLost => exact .inr rfl
  | pointed => exact fun _ _ => rfl
  | pointersLost => exact .inr rfl

/-- With the size of one block the turns make a list of two. -/
theorem lfsCtzExtend_two (hB : 104 ≤ c.blockSize.toNat) {fuel : Nat} {head : UInt32}
    {res : UInt32 × UInt32}
    (hrun : lfsCtzExtend bd c fuel head c.blockSize s = some (.ok res, s')) : res.2 = 4 := by
  have hne : c.blockSize ≠ 0 := toNat_ne_zero.mpr (by omega)
  have hpred : (c.blockSize - 1).toNat = c.blockSize.toNat - 1 :=
    UInt32.toNat_sub_of_le _ _ (UInt32.le_iff_toNat_le.mpr (by show 1 ≤ _; omega))
  have hsmall : (c.blockSize - 1).toNat < c.blockSize.toNat := by omega
  obtain ⟨hzero, hsame⟩ := lfsCtzIndex_small hB hsmall
  have hindex : (lfsCtzIndex c (c.blockSize - 1)).1 = 0 := UInt32.toNat_inj.mp hzero
  have hoff : (lfsCtzIndex c (c.blockSize - 1)).2 + 1 = c.blockSize := by
    rw [UInt32.toNat_inj.mp hsame, UInt32.sub_add_cancel]
  have hdone : ∀ {s s' : σ} {res : UInt32 × UInt32},
      ctzExtendTurn bd c head c.blockSize s = some (.done res, s') → res.2 = 4 := by
    intro s s' res h
    have hsize := ctzExtendTurn_size h hne hoff
    rw [hsize, hindex]
    decide
  induction fuel generalizing s head with
  | zero =>
    rw [lfsCtzExtend] at hrun
    split at hrun
    · cases hrun
    · cases hrun
    · rename_i heq
      cases hrun
      exact hdone heq
    · cases hrun
  | succ fuel ih =>
    rw [lfsCtzExtend] at hrun
    split at hrun
    · cases hrun
    · cases hrun
    · rename_i heq
      cases hrun
      exact hdone heq
    · rename_i head' size' s₁ heq
      have hsize := ctzExtendTurn_size heq
      rw [Outcome.Ensures, hoff, or_self] at hsize
      simp only at hsize
      subst hsize
      exact ih hrun (fun h => by
        have hsize := ctzExtendTurn_size h hne hoff
        rw [hsize, hindex]
        decide)

/-- A new block that needs more than one pointer, after one that could not be written: `size` and
`head` are no longer those of the file, and the block gets one pointer only. -/
theorem lfsCtzExtend_lost (h : CtzFile c dev addr n content) (hB : 104 ≤ c.blockSize.toNat)
    (hn : n ≠ 0) (heven : n % 2 = 0) (hfull : content.length = start 4 c.blockSize.toNat n)
    {s₁ : σ} {bad : UInt32 × UInt32}
    (hturn : ctzExtendTurn bd c (addr (n - 1)) content.length.toUInt32 s = some (.relocate bad, s₁))
    (herased : bad.2 ≠ content.length.toUInt32) {fuel : Nat} {res : UInt32 × UInt32}
    (hrun : lfsCtzExtend bd c fuel (addr (n - 1)) content.length.toUInt32 s = some (.ok res, s')) :
    res.2 = 4 ∧ ∀ i, ¬Locates c.blockSize.toNat content.length i res.2.toNat := by
  have hne : content ≠ [] := by
    rintro rfl
    exact hn (h.empty rfl)
  obtain ⟨last, off, rfl, hlast, -, hoff, hend⟩ := h.last_block hB hne
  have hblock := hend.mpr hfull
  have hsize : bad.2 = c.blockSize := by
    have hsize := (ctzExtendTurn_size hturn).resolve_left herased
    have := c.blockSize.toNat_lt
    rw [hsize, ← UInt32.toNat_inj, UInt32.toNat_add, hoff]
    exact (Nat.mod_eq_of_lt (by show off + 1 < _; omega)).trans hblock
  have hfour : res.2 = 4 := by
    cases fuel with
    | zero =>
      rw [lfsCtzExtend, hturn] at hrun
      cases hrun
    | succ fuel =>
      rw [lfsCtzExtend, hturn] at hrun
      obtain ⟨head', size'⟩ := bad
      obtain rfl : size' = c.blockSize := hsize
      exact lfsCtzExtend_two hB hrun
  refine ⟨hfour, fun i hloc => ?_⟩
  obtain ⟨hlt, hheader⟩ := h.full hB hfull
  have hwhere : Locates c.blockSize.toNat content.length (last + 1) (header 4 (last + 1)) :=
    ⟨by rw [hfull], Nat.le_refl _, by omega⟩
  have hoffset := (hloc.index_unique hwhere).2
  have htrail := one_le_trailing hn heven
  rw [hfour, header] at hoffset
  have : (4 : UInt32).toNat = 4 := rfl
  omega

end Turn

/-! ## A third block for the file of two -/

/-- Blocks without caches, and an allocator that has blocks 5 and 6; `bad` ones cannot be written. -/
def plainBlocks (bad : List UInt32) : Blocks (Device UInt8 × List UInt32) where
  alloc s :=
    match s.2 with
    | [] => some (.error LFS_ERR_NOSPC, s)
    | block :: free => some (.ok block, s.1, free)
  erase block s := some (0, s.1.erase block.toNat 0xff, s.2)
  read block off _ size s := some (.ok (s.1.read block.toNat off size), s)
  prog block off data s :=
    if block ∈ bad then some (LFS_ERR_CORRUPT, s)
    else some (0, s.1.prog block.toNat off data, s.2)
  drop s := s

def plainShows (s : Device UInt8 × List UInt32) (dev : Device UInt8)
    (_ : Option (UInt32 × Nat)) : Prop := s.1 = dev ∧ ∀ b ∈ s.2, b = 5 ∨ b = 6

theorem plainBlocks_lawful (bad : List UInt32) :
    (plainBlocks bad).Lawful eightBlocks (fun b => b < 5) plainShows where
  alloc := by
    rintro ⟨dev, free⟩ s' _ block ⟨rfl, hfree⟩ h
    cases free with
    | nil => cases h
    | cons b free =>
      cases h
      refine ⟨⟨rfl, fun b hb => hfree b (List.mem_cons_of_mem _ hb)⟩, ?_⟩
      rcases hfree block List.mem_cons_self with rfl | rfl <;> decide
  erase := by
    rintro s s' _ block err ⟨rfl, hfree⟩ - - h
    cases h
    exact .inl ⟨rfl, rfl, hfree⟩
  read := by
    rintro s s' _ _ block off hint size data ⟨rfl, hfree⟩ - - - - - h
    cases h
    exact ⟨⟨rfl, hfree⟩, rfl⟩
  prog := by
    rintro s s' _ _ block off data err ⟨rfl, hfree⟩ - - - - h
    simp only [plainBlocks] at h
    split at h
    · cases h
      exact .inr ⟨by decide, s.1, ⟨rfl, hfree⟩, fun _ _ => rfl⟩
    · cases h
      exact .inl ⟨rfl, rfl, hfree⟩
  drop h := h

theorem lfsCtzExtend_twoBlocks :
    ∃ s', lfsCtzExtend (plainBlocks []) eightBlocks 0 3 204 (twoBlocks, [5, 6]) =
        some (.ok (5, 8), s') ∧
      ∃ dev' cur' i, plainShows s' dev' cur' ∧ Continues cur' 5 8 ∧
        Keeps (fun b => b < 5) twoBlocks dev' ∧ ¬(5 : UInt32) < 5 ∧
        Extended eightBlocks dev' twoAddr (List.replicate 204 0) i 5 8 := by
  have hrun : ∃ s', lfsCtzExtend (plainBlocks []) eightBlocks 0 3 204 (twoBlocks, [5, 6]) =
      some (.ok (5, 8), s') := ⟨_, rfl⟩
  obtain ⟨s', hrun⟩ := hrun
  have hsize : (List.replicate 204 (0 : UInt8)).length.toUInt32 = 204 := by
    rw [List.length_replicate]
    rfl
  exact ⟨s', hrun, lfsCtzExtend_extended (plainBlocks_lawful []) twoBlocks_file (by decide)
    (fun j hj => by
      obtain rfl | rfl : j = 0 ∨ j = 1 := by omega
      · decide
      · decide)
    (fun _ _ _ => rfl) (s := (twoBlocks, [5, 6])) ⟨rfl, by simp⟩ (by rw [hsize]; exact hrun)⟩

theorem lfsCtzExtend_badBlock :
    ∃ s', lfsCtzExtend (plainBlocks [5]) eightBlocks 1 3 204 (twoBlocks, [5, 6]) =
        some (.ok (6, 4), s') ∧ ∀ i, ¬Locates 104 204 i 4 := by
  have hturn : ∃ s₁, ctzExtendTurn (plainBlocks [5]) eightBlocks 3 204 (twoBlocks, [5, 6]) =
      some (.relocate (3, 104), s₁) := ⟨_, rfl⟩
  have hrun : ∃ s', lfsCtzExtend (plainBlocks [5]) eightBlocks 1 3 204 (twoBlocks, [5, 6]) =
      some (.ok (6, 4), s') := ⟨_, rfl⟩
  obtain ⟨s₁, hturn⟩ := hturn
  obtain ⟨s', hrun⟩ := hrun
  have hsize : (List.replicate 204 (0 : UInt8)).length.toUInt32 = 204 := by
    rw [List.length_replicate]
    rfl
  have hfull : (List.replicate 204 (0 : UInt8)).length = start 4 eightBlocks.blockSize.toNat 2 := by
    rw [List.length_replicate, start, header_one]
    rfl
  have h := lfsCtzExtend_lost twoBlocks_file (by decide) (by decide) rfl hfull
    (by rw [hsize]; exact hturn) (by rw [hsize]; decide) (by rw [hsize]; exact hrun)
  rw [List.length_replicate] at h
  exact ⟨s', hrun, h.2⟩

end LfsTool
