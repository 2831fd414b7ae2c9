import LfsTool.ProgCache
import LfsTool.Recovery
import LfsTool.Traverse

/-!
# LfsTool.Matching

The tag that `lfs_dir_fetchmatch` finds: the last one that matches, with the id its entry has in the end.

* `adjust_step`: a record moves the tag that was found, or takes it away with its entry. `best_run`: so do the
  records after it.
* `fetchmatch_compared`: what a fetch answers, for any callback that compares the data of a tag.
* `lfsDirFindMatch`: the callback for a name. `lfsDirFetchmatch_find`: the search for a name.
-/

namespace LfsTool

open BlockArray Splices

section Adjust

variable {r : Record} {best : UInt32} {T i S : Nat} {n n' : Nat × Bool}

def carry (rs : List Record) (i : Nat) : Option Nat := (logOf rs).foldlM (fun i e => e.after i) i

theorem carry_cons (r : Record) (rs : List Record) (i : Nat) :
    carry (r :: rs) i = (carry [r] i).bind (carry rs) := by
  unfold carry
  rw [← List.singleton_append, logOf, List.filterMap_append, List.foldlM_append]
  rfl

theorem HasFields.ne_null (h : HasFields best T i S) (hT : T < 2 ^ 10) : best ≠ 0xffffffff := by
  rintro rfl
  have heq := h.toNat_eq
  have hi := h.id_lt
  have hS := h.size_lt
  have hnull : (0xffffffff : UInt32).toNat % 2 ^ 31 = 2 ^ 31 - 1 := by decide
  omega

theorem adjustBest_null (tag : UInt32) : adjustBest 0xffffffff tag = 0xffffffff := by
  unfold adjustBest
  split
  · split
    · decide
    · exact if_neg fun h => h.1 rfl
  · rfl

theorem or_valid_invalid (tag : UInt32) : lfsTagIsvalid (tag ||| 0x80000000) = false := by
  rw [Bool.eq_false_iff, ne_eq, lfsTagIsvalid_iff, or_valid_toNat]
  omega

/-- A record moves the tag that was found with its entry, or marks it when the entry is deleted. -/
theorem adjust_step (hproper : ProperTag r.tag) (hf : HasFields best T i S) (hT : T < 2 ^ 10)
    (hn : n.1 ≤ 0x3ff) (hi : i ≤ n.1) (hgrow : (logOf [r]).foldlM (grow 0x3ff) n = some n') :
    ∃ j, j ≤ n'.1 ∧ n'.1 ≤ 0x3ff ∧ HasFields (adjustBest best r.tag) T j S ∧
      (carry [r] i = some j ∧ lfsTagIsvalid (adjustBest best r.tag) = lfsTagIsvalid best ∨
        carry [r] i = none ∧ lfsTagIsvalid (adjustBest best r.tag) = false) := by
  have hsplice : lfsTagType1 r.tag = LFS_TYPE_SPLICE ↔ r.type / 2 ^ 8 = 4 := type1_eq_iff r rfl
  have hself : r.tag = mkTag LFS_TYPE_DELETE 0 0 ||| (mkTag 0 0x3ff 0 &&& best) ↔
      r.type = 0x4ff ∧ r.id = i ∧ r.size = 0 := r.fields.ext_iff (deleteTag_isTag hf)
  have hle : best ≠ 0xffffffff ∧ lfsTagId r.tag ≤ lfsTagId best ↔ r.id ≤ i := by
    rw [UInt32.le_iff_toNat_le, hf.tagId]
    exact and_iff_right (hf.ne_null hT)
  have hmoved : ∀ {tag' : UInt32} {j : Nat}, Relabels best i tag' j →
      HasFields tag' T j S ∧ lfsTagIsvalid tag' = lfsTagIsvalid best :=
    fun hrel => ⟨hf.relabel hrel, hf.relabel_valid hrel⟩
  simp only [adjustBest, hsplice, hself, hle]
  cases hentry : r.entry with
  | none =>
    obtain ⟨htype, hnot⟩ : 2 ^ 10 ≤ r.type ∧ ¬r.type / 2 ^ 8 = 4 := tagEntry_none hentry
    have hlog : logOf [r] = [] := List.filterMap_cons_none hentry
    rw [hlog] at hgrow
    cases hgrow
    rw [if_neg hnot, carry, hlog]
    exact ⟨i, hi, hn, hf, .inl ⟨rfl, rfl⟩⟩
  | some e =>
    have hlog : logOf [r] = [e] := List.filterMap_cons_some hentry
    have hcarry : carry [r] i = e.after i := by
      rw [carry, hlog]
      exact bind_pure _
    rw [grow_logOf hentry] at hgrow
    rw [hcarry]
    cases e with
    | create k =>
      obtain ⟨htype, rfl⟩ : r.type = 0x401 ∧ r.id = k := tagEntry_create hentry
      obtain ⟨hk, rfl⟩ := grow_create.mp hgrow
      rw [if_pos (by omega), if_neg (by omega), splice_create htype, Edit.after]
      by_cases hle : r.id ≤ i
      · rw [if_pos hle, if_pos hle]
        obtain ⟨hfields, hvalid⟩ := hmoved (hf.relabel_succ (by omega))
        exact ⟨i + 1, by simp only; omega, by simp only; omega, hfields, .inl ⟨rfl, hvalid⟩⟩
      · rw [if_neg hle, if_neg hle]
        exact ⟨i, by simp only; omega, by simp only; omega, hf, .inl ⟨rfl, rfl⟩⟩
    | delete k =>
      obtain ⟨htype, rfl⟩ : r.type = 0x4ff ∧ r.id = k := tagEntry_delete hproper hentry
      have hsize : r.size = 0 := (hproper (show r.type / 2 ^ 8 = 4 by omega)).2
      obtain ⟨hk, rfl⟩ := grow_delete.mp hgrow
      rw [if_pos (by omega), splice_delete htype, Edit.after]
      rcases Nat.lt_trichotomy r.id i with hlt | heq | hgt
      · rw [if_neg (by omega), if_pos (Nat.le_of_lt hlt), if_neg (Nat.ne_of_lt hlt), if_pos hlt]
        obtain ⟨hfields, hvalid⟩ := hmoved (hf.relabel_pred (by omega))
        exact ⟨i - 1, by simp only; omega, by simp only; omega, hfields, .inl ⟨rfl, hvalid⟩⟩
      · rw [if_pos ⟨htype, heq, hsize⟩, if_pos heq]
        refine ⟨i, by simp only; omega, by simp only; omega, or_valid_fields hf, .inr ⟨rfl, ?_⟩⟩
        exact or_valid_invalid best
      · rw [if_neg (by omega), if_neg (by omega), if_neg (Nat.ne_of_gt hgt), if_neg (Nat.lt_asymm hgt)]
        exact ⟨i, by simp only; omega, by simp only; omega, hf, .inl ⟨rfl, rfl⟩⟩
    | put k _ _ =>
      obtain ⟨htype, rfl, -, -⟩ : r.type < 2 ^ 10 ∧ r.id = k ∧ r.type = _ ∧ r.value = _ := tagEntry_put hentry
      have hle' := grow_le hgrow hn
      obtain ⟨-, rfl⟩ := grow_put.mp hgrow
      rw [if_neg (show ¬r.type / 2 ^ 8 = 4 by omega), Edit.after]
      exact ⟨i, by simp only; omega, hle', hf, .inl ⟨rfl, rfl⟩⟩

end Adjust

section Hits

variable {c : LfsConfig} {dev : Device UInt8} {block crc ptag best fmask ftag : UInt32} {off : Nat}
  {cmp : UInt32 → List UInt8 → Int} {r : Record} {rs : List Record} {T i S : Nat} {n n' : Nat × Bool}

/-- The records the callback is asked about and compares in this way: 0 is for what is looked for, and 2 for
what is greater. -/
def Compares (fmask ftag : UInt32) (cmp : UInt32 → List UInt8 → Int) (res : Int) (r : Record) : Prop :=
  fmask &&& r.tag = fmask &&& ftag ∧ cmp r.tag r.data = res

instance (fmask ftag : UInt32) (cmp : UInt32 → List UInt8 → Int) (res : Int) (r : Record) :
    Decidable (Compares fmask ftag cmp res r) :=
  inferInstanceAs (Decidable (_ ∧ _))

def hitStep (fmask ftag : UInt32) (cmp : UInt32 → List UInt8 → Int) (best : UInt32) (r : Record) : UInt32 :=
  if Compares fmask ftag cmp 0 r then r.tag
  else if Compares fmask ftag cmp 2 r ∧ lfsTagId r.tag ≤ lfsTagId (adjustBest best r.tag) then
    r.tag ||| 0x80000000
  else adjustBest best r.tag

def EntryMask (fmask ftag : UInt32) : Prop :=
  ∀ tag, fmask &&& tag = fmask &&& ftag → (lfsTagType3 tag).toNat < 2 ^ 10

theorem bestOf_eq (hmask : EntryMask fmask ftag) (rs : List Record) :
    bestOf fmask ftag cmp rs = rs.foldl (hitStep fmask ftag cmp) 0xffffffff := by
  refine congrFun (congrFun (congrArg List.foldl ?_) _) rs
  funext best r
  unfold bestStep hitStep Compares
  by_cases htag : fmask &&& r.tag = fmask &&& ftag
  · have hcrc : ¬lfsTagType1 r.tag = LFS_TYPE_CRC := by
      intro hcrc
      have htype : r.type < 2 ^ 10 := hmask r.tag htag
      have hfive : r.type / 2 ^ 8 = 5 := (type1_eq_iff r rfl).mp hcrc
      omega
    simp only [if_neg hcrc, htag, true_and, if_true]
  · have hsame : lfsTagType1 r.tag = LFS_TYPE_CRC → best = adjustBest best r.tag := by
      intro hcrc
      exact (if_neg (by rw [hcrc]; decide)).symm
    simp only [htag, false_and, if_false]
    split
    · exact hsame ‹_›
    · rfl

theorem id_lt_of_grow (htype : r.type < 2 ^ 10) (hgrow : (logOf [r]).foldlM (grow 0x3ff) n = some n') :
    r.id < n'.1 := by
  have hentry : r.entry = some (.put r.id r.type r.value) := by
    have hnot : ¬r.type / 2 ^ 8 = 4 := by omega
    exact (if_neg hnot).trans (if_pos htype)
  rw [grow_logOf hentry] at hgrow
  obtain ⟨-, rfl⟩ := grow_put.mp hgrow
  exact Nat.lt_of_lt_of_le (Nat.lt_succ_self r.id) (Nat.le_max_right _ _)

/-- No tag is found. There may be a mark where the entry would be. -/
structure Lost (best : UInt32) (n : Nat) : Prop where
  invalid : lfsTagIsvalid best = false
  fields : best = 0xffffffff ∨ ∃ T i S, HasFields best T i S ∧ T < 2 ^ 10 ∧ i ≤ n

theorem Lost.step (h : Lost best n.1) (hmask : EntryMask fmask ftag) (hproper : ProperTag r.tag)
    (hnone : ¬Compares fmask ftag cmp 0 r) (hn : n.1 ≤ 0x3ff)
    (hgrow : (logOf [r]).foldlM (grow 0x3ff) n = some n') :
    Lost (hitStep fmask ftag cmp best r) n'.1 := by
  rw [hitStep, if_neg hnone]
  split
  · rename_i hgreater
    have htype : r.type < 2 ^ 10 := hmask r.tag hgreater.1.1
    exact ⟨or_valid_invalid r.tag, .inr ⟨r.type, r.id, r.size, or_valid_fields r.fields.toHasFields, htype,
      Nat.le_of_lt (id_lt_of_grow htype hgrow)⟩⟩
  · obtain ⟨hinvalid, rfl | ⟨T, i, S, hf, hT, hi⟩⟩ := h
    · rw [adjustBest_null]
      exact ⟨by decide, .inl rfl⟩
    · obtain ⟨j, hj, -, hfields, hvalid⟩ := adjust_step hproper hf hT hn hi hgrow
      rw [hinvalid] at hvalid
      exact ⟨hvalid.elim And.right And.right, .inr ⟨T, j, S, hfields, hT, hj⟩⟩

theorem count_cons {n : Nat × Bool} (h : (logOf (r :: rs)).foldlM (grow 0x3ff) n = some n') (hn : n.1 ≤ 0x3ff) :
    ∃ n₁, (logOf [r]).foldlM (grow 0x3ff) n = some n₁ ∧ n₁.1 ≤ 0x3ff ∧
      (logOf rs).foldlM (grow 0x3ff) n₁ = some n' := by
  rw [← List.singleton_append, logOf, List.filterMap_append, List.foldlM_append] at h
  obtain ⟨n₁, hgrow, hrest⟩ := Option.bind_eq_some_iff.mp h
  exact ⟨n₁, hgrow, foldlM_grow_le hgrow hn, hrest⟩

theorem Lost.run (h : Lost best n.1) (hmask : EntryMask fmask ftag) (hproper : ∀ r ∈ rs, ProperTag r.tag)
    (hnone : ∀ r ∈ rs, ¬Compares fmask ftag cmp 0 r) (hn : n.1 ≤ 0x3ff)
    (hcount : (logOf rs).foldlM (grow 0x3ff) n = some n') :
    Lost (rs.foldl (hitStep fmask ftag cmp) best) n'.1 := by
  induction rs generalizing best n with
  | nil =>
    cases hcount
    exact h
  | cons r rs ih =>
    obtain ⟨n₁, hgrow, hn₁, hrest⟩ := count_cons hcount hn
    have hstep := h.step hmask (hproper r List.mem_cons_self) (hnone r List.mem_cons_self) hn hgrow
    exact ih hstep (fun r hr => hproper r (List.mem_cons_of_mem _ hr))
      (fun r hr => hnone r (List.mem_cons_of_mem _ hr)) hn₁ hrest

/-- While the entry at `i` is there, no greater record belongs to an entry before it. -/
def Sorted (fmask ftag : UInt32) (cmp : UInt32 → List UInt8 → Int) (rs : List Record) (i : Nat) : Prop :=
  ∀ pre r post j, rs = pre ++ r :: post → carry pre i = some j → Compares fmask ftag cmp 2 r → j < r.id

theorem Sorted.tail {i₁ : Nat} (h : Sorted fmask ftag cmp (r :: rs) i) (hcarry : carry [r] i = some i₁) :
    Sorted fmask ftag cmp rs i₁ := by
  intro pre r' post j hsplit hj hgreater
  refine h (r :: pre) r' post j (by rw [hsplit, List.cons_append]) ?_ hgreater
  rw [carry_cons, hcarry]
  exact hj

theorem best_run (hmask : EntryMask fmask ftag) (hproper : ∀ r ∈ rs, ProperTag r.tag)
    (hnone : ∀ r ∈ rs, ¬Compares fmask ftag cmp 0 r) (hsorted : Sorted fmask ftag cmp rs i)
    (hf : IsTag best T i S) (hT : T < 2 ^ 10) (hn : n.1 ≤ 0x3ff) (hi : i ≤ n.1)
    (hcount : (logOf rs).foldlM (grow 0x3ff) n = some n') :
    (∃ j, carry rs i = some j ∧ IsTag (rs.foldl (hitStep fmask ftag cmp) best) T j S) ∨
      carry rs i = none ∧ lfsTagIsvalid (rs.foldl (hitStep fmask ftag cmp) best) = false := by
  induction rs generalizing best i n with
  | nil => exact .inl ⟨i, rfl, hf⟩
  | cons r rs ih =>
    obtain ⟨n₁, hgrow, -, hrest⟩ := count_cons hcount hn
    obtain ⟨i₁, hi₁, hn₁, hf₁, hstep⟩ :=
      adjust_step (hproper r List.mem_cons_self) hf.toHasFields hT hn hi hgrow
    have hproper' : ∀ r ∈ rs, ProperTag r.tag := fun r hr => hproper r (List.mem_cons_of_mem _ hr)
    have hnone' : ∀ r ∈ rs, ¬Compares fmask ftag cmp 0 r := fun r hr => hnone r (List.mem_cons_of_mem _ hr)
    have hhit : hitStep fmask ftag cmp best r = adjustBest best r.tag := by
      rw [hitStep, if_neg (hnone r List.mem_cons_self), if_neg]
      rintro ⟨hgreater, hle⟩
      have htype : r.type < 2 ^ 10 := hmask r.tag hgreater.1
      have hlt : i < r.id := hsorted [] r rs i rfl rfl hgreater
      -- a record with a value moves no entry
      have hsame : adjustBest best r.tag = best := by
        refine if_neg fun hsplice => ?_
        have hfour : r.type / 2 ^ 8 = 4 := (type1_eq_iff r rfl).mp hsplice
        omega
      rw [hsame, UInt32.le_iff_toNat_le, hf.tagId] at hle
      exact absurd hle (Nat.not_le.mpr hlt)
    rw [List.foldl_cons, hhit, carry_cons]
    rcases hstep with ⟨hcarry, hvalid⟩ | ⟨hcarry, hinvalid⟩
    · rw [hcarry]
      exact ih hproper' hnone' (hsorted.tail hcarry) ⟨hf₁, hvalid.trans hf.valid⟩ hn₁ hi₁ hrest
    · rw [hcarry]
      have hlost : Lost (adjustBest best r.tag) n₁.1 := ⟨hinvalid, .inr ⟨T, i₁, S, hf₁, hT, hi₁⟩⟩
      exact .inr ⟨rfl, (hlost.run hmask hproper' hnone' hn₁ hrest).invalid⟩

end Hits

/-! ## What a fetch answers -/

section Answer

variable {c : LfsConfig} {dev : Device UInt8} {fmask ftag : UInt32} {τ : Type}
  {cb : UInt32 → UInt32 → Nat → τ → Option (Int × τ)} {pair : Pair} {rs : List Record} {gstate : Gstate} {f : Found}

/-- No tag was found. The answer depends on whether the id is that of an entry. -/
def NotFound (res : Except Int UInt32) : Prop := res = .error LFS_ERR_NOENT ∨ res = .ok 0

theorem fetchAnswer_valid (hmove : ¬lfsGstateHasmovehere gstate f.dir.pair)
    (hvalid : lfsTagIsvalid f.besttag = true) :
    (fetchAnswer gstate f).1 = .ok f.besttag := by
  unfold fetchAnswer
  simp only [if_neg hmove, if_pos hvalid]

theorem fetchAnswer_invalid (hmove : ¬lfsGstateHasmovehere gstate f.dir.pair)
    (hvalid : ¬lfsTagIsvalid f.besttag = true) : NotFound (fetchAnswer gstate f).1 := by
  unfold fetchAnswer
  simp only [if_neg hmove, if_neg hvalid]
  split
  · exact .inl rfl
  · exact .inr rfl

/-- A fetch finds the last record that is looked for, at the id its entry has in the end, unless its entry has
been deleted. -/
theorem fetchmatch_compared {cmp : UInt32 → List UInt8 → Int} (hmask : EntryMask fmask ftag)
    (hcmp : ∀ tag data, 0 ≤ cmp tag data)
    (hcb : ∀ block, block = pair.1 ∨ block = pair.2 → ComparedBy c dev (revCrc dev block) block fmask ftag cb cmp)
    (hc : Workable c) (hb : pair.1 < c.blockCount ∧ pair.2 < c.blockCount)
    (hcommits : Commits c dev (newestFirst dev pair).1 rs)
    (hlast : ∀ rs', Commits c dev (newestFirst dev pair).1 rs' → rs' <+: rs) (hproper : ∀ r ∈ rs, ProperTag r.tag)
    {n : Nat} (hcount : Counts rs n) (hmove : ¬lfsGstateHasmovehere gstate (newestFirst dev pair)) (dir : Mdir)
    (seed : UInt32) (t : τ) :
    ∃ f res t', lfsDirFetchmatch (deviceRead c dev) c fmask ftag cb gstate dir pair seed t =
        some (.ok (f, res), t') ∧
      ((∀ r ∈ rs, ¬Compares fmask ftag cmp 0 r) → NotFound res.1) ∧
      ∀ pre r post, rs = pre ++ r :: post → Compares fmask ftag cmp 0 r →
        (∀ r ∈ post, ¬Compares fmask ftag cmp 0 r) → Sorted fmask ftag cmp post r.id →
        (∀ j, carry post r.id = some j → ∃ tag, res.1 = .ok tag ∧ IsTag tag r.type j r.size) ∧
        (carry post r.id = none → NotFound res.1) := by
  have hquiet : QuietPair c dev pair fmask ftag cb := by
    intro block hblock all r hfollow hmatch t
    obtain ⟨t', hres⟩ := hcb block hblock all r hfollow hmatch t
    exact ⟨_, t', hres, hcmp _ _⟩
  obtain ⟨f, rs', t', hrun, hpair, hlongest, hbest, hpre⟩ :=
    fetchmatch_newest hc hb hquiet hcommits gstate dir seed t
  have hcommits' : Commits c dev (newestFirst dev pair).1 rs' := by
    rw [← hpair]
    exact ⟨hlongest.follow, hlongest.committed⟩
  obtain rfl : rs = rs' := hpre.eq_of_length_le (hlast rs' hcommits').length_le
  have hmove' : ¬lfsGstateHasmovehere gstate f.dir.pair := by rwa [hpair]
  have hfold : f.besttag = rs.foldl (hitStep fmask ftag cmp) 0xffffffff := by
    rw [hbest cmp (hcb _ (hpair ▸ (newestFirst_mem dev pair).1)), bestOf_eq hmask]
  obtain ⟨spliced, hlog⟩ := hcount
  refine ⟨f, fetchAnswer gstate f, t', hrun, fun hnone => ?_, fun pre r post hsplit hhit hnone hsorted => ?_⟩
  · have hstart : Lost 0xffffffff 0 := ⟨by decide, .inl rfl⟩
    have hlost := hstart.run (n := (0, false)) hmask hproper hnone (Nat.zero_le _) hlog
    refine fetchAnswer_invalid hmove' ?_
    rw [hfold, hlost.invalid]
    decide
  · have htype : r.type < 2 ^ 10 := hmask r.tag hhit.1
    have hbest' : f.besttag = post.foldl (hitStep fmask ftag cmp) r.tag := by
      rw [hfold, hsplit, List.foldl_append, List.foldl_cons, hitStep, if_pos hhit]
    rw [hsplit, List.append_cons, logOf, List.filterMap_append, List.foldlM_append] at hlog
    obtain ⟨n₁, hbefore, hafter⟩ := Option.bind_eq_some_iff.mp hlog
    have hn₁ := (within_of_count hbefore).1
    rw [List.filterMap_append, List.foldlM_append] at hbefore
    obtain ⟨n₀, -, hgrow⟩ := Option.bind_eq_some_iff.mp hbefore
    have hid := Nat.le_of_lt (id_lt_of_grow htype hgrow)
    have hpost : ∀ r ∈ post, ProperTag r.tag := fun r hr => hproper r (by rw [hsplit]; simp [hr])
    have hrun' := best_run hmask hpost hnone hsorted r.fields htype hn₁ hid hafter
    rw [← hbest'] at hrun'
    constructor
    · intro j hcarry
      rcases hrun' with ⟨j', hsome, htag⟩ | ⟨hgone, -⟩
      · rw [hsome] at hcarry
        cases hcarry
        exact ⟨f.besttag, fetchAnswer_valid hmove' htag.valid, htag⟩
      · rw [hgone] at hcarry
        cases hcarry
    · intro hcarry
      rcases hrun' with ⟨j', hsome, -⟩ | ⟨-, hinvalid⟩
      · rw [hsome] at hcarry
        cases hcarry
      · refine fetchAnswer_invalid hmove' ?_
        rw [hinvalid]
        decide

end Answer

/-! ## Names -/

def LfsCmp.toInt : LfsCmp → Int
  | .eq => 0
  | .lt => 1
  | .gt => 2

def lfsDirFindMatch (cmp : BdCmp) (name : List UInt8) (tag block : UInt32) (off : Nat) : Option Int :=
  let size := (lfsTagSize tag).toNat
  let diff := min name.length size
  match cmp diff block off (name.take diff) with
  | none => none
  | some (.error err) => some err
  | some (.ok res) =>
    if res ≠ .eq then some res.toInt
    -- only equal if our size is still the same
    else if name.length ≠ size then some (if name.length < size then LfsCmp.lt else LfsCmp.gt).toInt
    else some LfsCmp.eq.toInt

section Names

variable {c : LfsConfig} {dev : Device UInt8} {block : UInt32} {off : Nat} {name data : List UInt8} {r : Record}

def nameCmp (name data : List UInt8) : Int :=
  if cmpBytes data name ≠ .eq then (cmpBytes data name).toInt
  else if name.length ≠ data.length then (if name.length < data.length then LfsCmp.lt else LfsCmp.gt).toInt
  else LfsCmp.eq.toInt

theorem cmpBytes_take (data name : List UInt8) :
    cmpBytes (data.take (min name.length data.length)) (name.take (min name.length data.length)) =
      cmpBytes data name := by
  induction data generalizing name with
  | nil => simp [cmpBytes]
  | cons d data ih =>
    cases name with
    | nil => rfl
    | cons b name =>
      simp only [List.length_cons, Nat.succ_min_succ, List.take_succ_cons, cmpBytes, ih]

theorem nameCmp_nonneg (name data : List UInt8) : 0 ≤ nameCmp name data := by
  have hnonneg : ∀ res : LfsCmp, 0 ≤ res.toInt := by
    intro res
    cases res <;> decide
  unfold nameCmp
  split
  · exact hnonneg _
  · split <;> exact hnonneg _

theorem nameCmp_eq_zero_iff : nameCmp name data = 0 ↔ data = name := by
  constructor
  · intro h
    unfold nameCmp at h
    split at h
    · cases hcmp : cmpBytes data name <;> simp_all [LfsCmp.toInt]
    · split at h
      · split at h <;> cases h
      · rename_i heq hlen
        exact (cmpBytes_eq_iff (not_not.mp hlen).symm).mp (not_not.mp heq)
  · rintro rfl
    rw [nameCmp, (cmpBytes_eq_iff rfl).mpr rfl, if_neg (fun h => h rfl), if_neg (fun h => h rfl)]
    rfl

theorem lfsDirFindMatch_eq (hc : Workable c) (hb : block < c.blockCount) (h : Holds dev block.toNat off r.data)
    (hfit : off + r.data.length ≤ c.blockSize.toNat) (hsize : r.size ≠ 0x3ff) (name : List UInt8) :
    lfsDirFindMatch (deviceCmp c dev) name r.tag block off = some (nameCmp name r.data) := by
  have hlen : r.data.length = (lfsTagSize r.tag).toNat := r.length_eq.trans (if_neg hsize)
  have htake : (name.take (min name.length r.data.length)).length = min name.length r.data.length := by
    rw [List.length_take]
    omega
  have hcmp := deviceCmp_eq dev hc hb off (name.take (min name.length r.data.length)) (by rw [htake]; omega)
  have hread : dev.read block.toNat off (min name.length r.data.length) =
      r.data.take (min name.length r.data.length) := by
    rw [← List.take_append_drop (min name.length r.data.length) r.data, holds_append] at h
    have hfirst := h.1
    rw [Holds, List.length_take, Nat.min_eq_left (Nat.min_le_right _ _)] at hfirst
    exact hfirst
  rw [htake, hread, cmpBytes_take] at hcmp
  unfold lfsDirFindMatch nameCmp
  simp only [← hlen, hcmp]
  split
  · rfl
  · split <;> rfl

theorem find_mask_iff {len : UInt32} (hlen : len.toNat < 2 ^ 10) (tag : UInt32) :
    mkTag 0x780 0 0 &&& tag = mkTag 0x780 0 0 &&& mkTag LFS_TYPE_NAME 0 len ↔
      (lfsTagType3 tag).toNat < 2 ^ 7 := by
  have hsmall : (0 : UInt32).toNat < 2 ^ 10 := by decide
  have hname := mkTag_isTag (show LFS_TYPE_NAME.toNat < 2 ^ 11 by decide) hsmall hlen
  have htype := (hasFields tag).type_lt
  rw [mask_type_eq_iff (hasFields tag) hname.toHasFields (show (0x780 : UInt32).toNat < 2 ^ 11 by decide)]
  have hand : (0x780 : UInt32).toNat &&& (lfsTagType3 tag).toNat = (lfsTagType3 tag).toNat / 2 ^ 7 * 2 ^ 7 := by
    have hupper := upper_and 7 15 (lfsTagType3 tag).toNat
    rw [Nat.and_comm 15, Nat.and_two_pow_sub_one_eq_mod _ 4, Nat.mod_eq_of_lt (by omega),
      Nat.mul_comm _ (_ / _)] at hupper
    exact hupper
  rw [hand, show (0x780 : UInt32).toNat &&& LFS_TYPE_NAME.toNat = 0 from rfl]
  omega

end Names

section Search

variable {c : LfsConfig} {dev : Device UInt8} {pair : Pair} {rs : List Record} {gstate : Gstate} {name : List UInt8}

def NameIs (name : List UInt8) (r : Record) : Prop := r.type < 2 ^ 7 ∧ r.data = name

instance (name : List UInt8) (r : Record) : Decidable (NameIs name r) := inferInstanceAs (Decidable (_ ∧ _))

/-- While the entry at `i` is there, no entry before it or at its place gets a name that is greater. -/
def InOrder (name : List UInt8) (rs : List Record) (i : Nat) : Prop :=
  ∀ pre r post j, rs = pre ++ r :: post → carry pre i = some j → r.type < 2 ^ 7 → nameCmp name r.data = 2 → j < r.id

/-- The search for one name of a path finds the last record with that name, at the id its entry has in the
end, unless its entry has been deleted. -/
theorem lfsDirFetchmatch_find {len : UInt32} (hlen : len.toNat < 2 ^ 10) (hc : Workable c)
    (hb : pair.1 < c.blockCount ∧ pair.2 < c.blockCount)
    (hnames : ∀ block, block = pair.1 ∨ block = pair.2 → ∀ all,
      FollowAll dev block c 4 (revCrc dev block) 0xffffffff all → ∀ r ∈ all, r.type < 2 ^ 7 → r.size ≠ 0x3ff)
    (hcommits : Commits c dev (newestFirst dev pair).1 rs)
    (hlast : ∀ rs', Commits c dev (newestFirst dev pair).1 rs' → rs' <+: rs) (hproper : ∀ r ∈ rs, ProperTag r.tag)
    {n : Nat} (hcount : Counts rs n) (hmove : ¬lfsGstateHasmovehere gstate (newestFirst dev pair))
    (name : List UInt8) (dir : Mdir) (seed : UInt32) :
    ∃ f res, lfsDirFetchmatch (deviceRead c dev) c (mkTag 0x780 0 0) (mkTag LFS_TYPE_NAME 0 len)
        (fun tag block off t => (lfsDirFindMatch (deviceCmp c dev) name tag block off).map (·, t)) gstate dir pair seed
        () = some (.ok (f, res), ()) ∧
      ((∀ r ∈ rs, ¬NameIs name r) → NotFound res.1) ∧
      ∀ pre r post, rs = pre ++ r :: post → NameIs name r → (∀ r ∈ post, ¬NameIs name r) → InOrder name post r.id →
        (∀ j, carry post r.id = some j → ∃ tag, res.1 = .ok tag ∧ IsTag tag r.type j r.size) ∧
        (carry post r.id = none → NotFound res.1) := by
  have hmask : EntryMask (mkTag 0x780 0 0) (mkTag LFS_TYPE_NAME 0 len) := by
    intro tag htag
    have htype := (find_mask_iff hlen tag).mp htag
    omega
  have hcb : ∀ block, block = pair.1 ∨ block = pair.2 →
      ComparedBy c dev (revCrc dev block) block (mkTag 0x780 0 0) (mkTag LFS_TYPE_NAME 0 len)
        (fun tag block off (t : Unit) => (lfsDirFindMatch (deviceCmp c dev) name tag block off).map (·, t))
        fun _ data => nameCmp name data := by
    intro block hblock all r hfollow htag t
    have hsize := hnames block hblock _ hfollow r (by simp) ((find_mask_iff hlen r.tag).mp htag)
    obtain ⟨-, hone⟩ := followAll_append.mp hfollow
    cases hone with
    | cons hr _ =>
      have hlength := r.length
      have hfit := hr.fit
      have hholds := (holds_append.mp hr.holds).2
      rw [be32_length] at hholds
      have hblock' : block < c.blockCount := hblock.elim (· ▸ hb.1) (· ▸ hb.2)
      exact ⟨t, congrArg (Option.map fun res => (res, t))
        (lfsDirFindMatch_eq hc hblock' hholds (by omega) hsize name)⟩
  have hhit : ∀ r : Record,
      Compares (mkTag 0x780 0 0) (mkTag LFS_TYPE_NAME 0 len) (fun _ data => nameCmp name data) 0 r ↔
        NameIs name r := by
    intro r
    rw [Compares, find_mask_iff hlen, nameCmp_eq_zero_iff]
    rfl
  obtain ⟨f, res, t', hrun, hnone, hfound⟩ :=
    fetchmatch_compared hmask (fun _ data => nameCmp_nonneg name data) hcb hc hb hcommits hlast hproper hcount hmove dir
      seed ()
  simp only [hhit] at hnone hfound
  refine ⟨f, res, hrun, hnone, fun pre r post hsplit hname hrest horder => hfound pre r post hsplit hname hrest ?_⟩
  intro pre' r' post' j hsplit' hcarry hgreater
  exact horder pre' r' post' j hsplit' hcarry ((find_mask_iff hlen r'.tag).mp hgreater.1) hgreater.2

theorem lfsDirFetchmatch_find_twoFiles :
    ∃ f id, lfsDirFetchmatch (deviceRead eightBlocks twoFilesDevice) eightBlocks (mkTag 0x780 0 0)
        (mkTag LFS_TYPE_NAME 0 1)
        (fun tag block off t =>
          (lfsDirFindMatch (deviceCmp eightBlocks twoFilesDevice) [0x62] tag block off).map (·, t))
        ⟨0, (0, 0)⟩ twoFilesDir (0, 1) 0 () = some (.ok (f, .ok (mkTag 1 1 1), id), ()) := by
  have hlen : (1 : UInt32).toNat < 2 ^ 10 := by decide
  have hnames : ∀ block, block = ((0, 1) : Pair).1 ∨ block = ((0, 1) : Pair).2 → ∀ all,
      FollowAll twoFilesDevice block eightBlocks 4 (revCrc twoFilesDevice block) 0xffffffff all →
        ∀ r ∈ all, r.type < 2 ^ 7 → r.size ≠ 0x3ff := by
    intro block _ all hfollow r hr
    have hsizes : ∀ r ∈ twoFiles, r.type < 2 ^ 7 → r.size ≠ 0x3ff := by decide
    exact hsizes r ((twoFiles_reached hfollow).subset hr)
  have hmove : ¬lfsGstateHasmovehere ⟨0, (0, 0)⟩ (newestFirst twoFilesDevice (0, 1)) := by decide
  have hlast : ∀ rs', Commits eightBlocks twoFilesDevice (newestFirst twoFilesDevice (0, 1)).1 rs' →
      rs' <+: twoFiles := fun rs' hrs' => twoFiles_reached hrs'.1
  obtain ⟨f, ⟨answer, id⟩, hrun, -, hmatch⟩ :=
    lfsDirFetchmatch_find hlen eightBlocks_workable (by decide) hnames (twoFiles_commits _) hlast
      twoFiles_describes.proper twoFiles_counts hmove [0x62] twoFilesDir 0
  have horder : InOrder [0x62] (twoFiles.drop 5) twoFiles[4].id := by
    intro pre r post j hsplit _ htype
    have hr : r ∈ twoFiles.drop 5 := by
      rw [hsplit]
      simp
    have hnot : ∀ r ∈ twoFiles.drop 5, ¬r.type < 2 ^ 7 := by decide
    exact absurd htype (hnot r hr)
  obtain ⟨hfound, -⟩ := hmatch (twoFiles.take 4) twoFiles[4] (twoFiles.drop 5) rfl (by decide) (by decide) horder
  obtain ⟨tag, rfl, htag⟩ := hfound 1 (by decide)
  have hname : IsTag (mkTag 1 1 1) 1 1 1 := isTag_iff.mpr (by decide)
  obtain rfl : tag = mkTag 1 1 1 := (htag.ext_iff hname).mpr (by decide)
  exact ⟨f, id, hrun⟩

end Search

end LfsTool
