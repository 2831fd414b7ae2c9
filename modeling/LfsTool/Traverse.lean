import LfsTool.Lookup

/-!
# LfsTool.Traverse

`lfs_dir_traverse`, which goes over the tags of a metadata block and the attributes that are to be written,
and passes on what no later tag overrides, with the ids of the end.

* `lfsDirTraverse`, `lfsDirTraverseFilter`.
* `Streams`: the tags a traversal meets. `Describes.streams`: they are the records of the block and the
  attributes after them.
* `itemEntry`: what a tag says about the entries of the directory.
* `filter_eq`: the filter follows the entry of a tag through the rest of the stream, as `survive` does.
-/

namespace LfsTool

open BitCount BlockArray Splices

abbrev LFS_FROM_NOOP : UInt32 := 0x000
abbrev LFS_FROM_MOVE : UInt32 := 0x101
abbrev LFS_FROM_USERATTRS : UInt32 := 0x102

/-- What the data pointer of a tag points to. -/
inductive Buffer where
  | null
  | mem (data : List UInt8)
  | disk (block : UInt32) (off : Nat)
  | mdir (dir : Mdir)
  | userattrs (attrs : List (UInt32 × List UInt8))

structure Mattr where
  tag : UInt32
  buffer : Buffer

structure Stream where
  off : Nat
  ptag : UInt32
  attrs : List Mattr
  hasseenmove : Bool

section Traverse

variable (rd : BdRead) (gpending : Gstate)

/-- The next tag, of the block, the attributes or the move that is pending. -/
def traverseNext (dir : Mdir) (s : Stream) : Option (Except Int (Option (UInt32 × Buffer × Stream))) :=
  if add32 s.off (lfsTagDsize s.ptag).toNat < dir.off then
    let off := add32 s.off (lfsTagDsize s.ptag).toNat
    match rd 4 dir.pair.1 off 4 with
    | none => none
    | some (.error err) => some (.error err)
    | some (.ok bytes) =>
      let tag := (lfsFrombe32 bytes ^^^ s.ptag) ||| 0x80000000
      some (.ok (some (tag, .disk dir.pair.1 (add32 off 4), { s with off, ptag := tag })))
  else
    match s.attrs with
    | attr :: attrs => some (.ok (some (attr.tag, attr.buffer, { s with attrs })))
    | [] =>
      if s.hasseenmove = false ∧ lfsGstateHasmovehere gpending dir.pair then
        -- wait, we have pending move?
        some (.ok (some (gpending.tag &&& mkTag 0x7ff 0x3ff 0, .null, { s with hasseenmove := true })))
      else some (.ok none)

/-- The callback of the inner traversal. The state is the tag that may be redundant. -/
def lfsDirTraverseFilter (tag : UInt32) (_buffer : Buffer) (filtertag : UInt32) : Int × UInt32 :=
  let mask := if tag &&& mkTag 0x100 0 0 ≠ 0 then mkTag 0x7ff 0x3ff 0 else mkTag 0x700 0x3ff 0
  if mask &&& tag = mask &&& filtertag ∨ lfsTagIsdelete filtertag = true ∨
      mkTag 0x7ff 0x3ff 0 &&& tag = mkTag LFS_TYPE_DELETE 0 0 ||| (mkTag 0 0x3ff 0 &&& filtertag) then
    (1, filtertag)
  -- check if we need to adjust for created/deleted tags
  else if lfsTagType1 tag = LFS_TYPE_SPLICE ∧ lfsTagId tag ≤ lfsTagId filtertag then
    (0, filtertag + mkTag 0 (lfsTagSplice tag) 0)
  else (0, filtertag)

/-- The user attributes of a file, one after the other. -/
def userattrsLoop {τ : Type} (cb : UInt32 → Buffer → τ → Int × τ) (id : UInt32) :
    List (UInt32 × List UInt8) → τ → Int × τ
  | [], t => (0, t)
  | (type, data) :: attrs, t =>
    let (err, t) := cb (mkTag (LFS_TYPE_USERATTR + type) id data.length.toUInt32) (.mem data) t
    if err ≠ 0 then (err, t) else userattrsLoop cb id attrs t

/-- `lfs_dir_traverse`, which calls itself to filter and to move an entry. `begin` and `end` are ids. -/
def lfsDirTraverse : Nat → Mdir → Stream → (tmask ttag first last diff : UInt32) → {τ : Type} →
    (UInt32 → Buffer → τ → Int × τ) → τ → Option (Int × τ)
  | fuel, dir, s, tmask, ttag, first, last, diff, _, cb, t =>
    match traverseNext rd gpending dir s with
    | none => none
    | some (.error err) => some (err, t)
    | some (.ok none) => some (0, t)
    | some (.ok (some (tag, buffer, s))) =>
      match fuel with
      | 0 => none
      | fuel + 1 =>
        let mask := mkTag 0x7ff 0 0
        if mask &&& tmask &&& tag ≠ mask &&& tmask &&& ttag then
          lfsDirTraverse fuel dir s tmask ttag first last diff cb t
        else
          let filtered :=
            if lfsTagId tmask ≠ 0 then lfsDirTraverse fuel dir s 0 0 0 0 0 lfsDirTraverseFilter tag
            else some (0, tag)
          match filtered with
          | none => none
          | some (filter, tag) =>
            if filter < 0 then some (filter, t)
            else if filter ≠ 0 then lfsDirTraverse fuel dir s tmask ttag first last diff cb t
            else if lfsTagId tmask ≠ 0 ∧ ¬(first ≤ lfsTagId tag ∧ lfsTagId tag < last) then
              lfsDirTraverse fuel dir s tmask ttag first last diff cb t
            else
              let done :=
                if lfsTagType3 tag = LFS_FROM_NOOP then some (0, t)
                else if lfsTagType3 tag = LFS_FROM_MOVE then
                  match buffer with
                  | .mdir source =>
                    let fromid := lfsTagSize tag
                    lfsDirTraverse fuel source ⟨0, LFS_BLOCK_NULL, [], true⟩ (mkTag 0x600 0x3ff 0)
                      (mkTag LFS_TYPE_STRUCT 0 0) fromid (fromid + 1) (lfsTagId tag - fromid + diff) cb t
                  | _ => none
                else if lfsTagType3 tag = LFS_FROM_USERATTRS then
                  match buffer with
                  | .userattrs attrs =>
                    some (userattrsLoop cb (lfsTagId tag + diff) (attrs.take (lfsTagSize tag).toNat) t)
                  | _ => none
                else some (cb (tag + mkTag 0 diff 0) buffer t)
              match done with
              | none => none
              | some (err, t) =>
                if err ≠ 0 then some (err, t)
                else lfsDirTraverse fuel dir s tmask ttag first last diff cb t

end Traverse

def eachTag {τ : Type} (cb : UInt32 → Buffer → τ → Int × τ) : List (UInt32 × Buffer) → τ → Int × τ
  | [], t => (0, t)
  | (tag, buffer) :: items, t =>
    if (cb tag buffer t).1 ≠ 0 then cb tag buffer t else eachTag cb items (cb tag buffer t).2

/-! ## The stream -/

inductive Streams (rd : BdRead) (gpending : Gstate) (dir : Mdir) : Stream → List (UInt32 × Buffer) → Prop where
  | done {s : Stream} (h : traverseNext rd gpending dir s = some (.ok none)) : Streams rd gpending dir s []
  | next {s s' : Stream} {tag : UInt32} {buffer : Buffer} {items : List (UInt32 × Buffer)}
      (h : traverseNext rd gpending dir s = some (.ok (some (tag, buffer, s'))))
      (hrest : Streams rd gpending dir s' items) : Streams rd gpending dir s ((tag, buffer) :: items)

def diskItems (block : UInt32) : Nat → List Record → List (UInt32 × Buffer)
  | _, [] => []
  | off, r :: rs =>
    (r.tag ||| 0x80000000, .disk block (off + 4)) :: diskItems block (off + (lfsTagDsize r.tag).toNat) rs

def attrItems (attrs : List Mattr) : List (UInt32 × Buffer) := attrs.map fun attr => (attr.tag, attr.buffer)

/-- The move that is pending comes last. -/
def moveItem (gpending : Gstate) (dir : Mdir) (hasseenmove : Bool) : List (UInt32 × Buffer) :=
  if hasseenmove = false ∧ lfsGstateHasmovehere gpending dir.pair then
    [(gpending.tag &&& mkTag 0x7ff 0x3ff 0, .null)]
  else []

section Stream

variable {c : LfsConfig} {dev : Device UInt8} {gpending : Gstate} {dir : Mdir} {rs : List Record}

theorem streams_attrs {rd : BdRead} {s : Stream} (hend : dir.off ≤ add32 s.off (lfsTagDsize s.ptag).toNat) :
    Streams rd gpending dir s (attrItems s.attrs ++ moveItem gpending dir s.hasseenmove) := by
  obtain ⟨off, ptag, attrs, hasseenmove⟩ := s
  induction attrs with
  | nil =>
    by_cases hmove : hasseenmove = false ∧ lfsGstateHasmovehere gpending dir.pair
    · have hnext : traverseNext rd gpending dir ⟨off, ptag, [], hasseenmove⟩ =
          some (.ok (some (gpending.tag &&& mkTag 0x7ff 0x3ff 0, .null, ⟨off, ptag, [], true⟩))) := by
        simp only [traverseNext, if_neg (Nat.not_lt.mpr hend), if_pos hmove]
      have hdone : traverseNext rd gpending dir ⟨off, ptag, [], true⟩ = some (.ok none) := by
        simp only [traverseNext, if_neg (Nat.not_lt.mpr hend), Bool.true_eq_false, false_and, if_false]
      simp only [attrItems, List.map_nil, List.nil_append, moveItem, if_pos hmove]
      exact .next hnext (.done hdone)
    · have hdone : traverseNext rd gpending dir ⟨off, ptag, [], hasseenmove⟩ = some (.ok none) := by
        simp only [traverseNext, if_neg (Nat.not_lt.mpr hend), if_neg hmove]
      simp only [attrItems, List.map_nil, List.nil_append, moveItem, if_neg hmove]
      exact .done hdone
  | cons attr attrs ih =>
    have hnext : traverseNext rd gpending dir ⟨off, ptag, attr :: attrs, hasseenmove⟩ =
        some (.ok (some (attr.tag, attr.buffer, ⟨off, ptag, attrs, hasseenmove⟩))) := by
      simp only [traverseNext, if_neg (Nat.not_lt.mpr hend)]
    exact .next hnext (ih hend)

theorem or_valid_toNat (a : UInt32) : (a ||| 0x80000000).toNat = a.toNat % 2 ^ 31 + 2 ^ 31 := by
  have hlow : ((a ||| 0x80000000) &&& 0x7fffffff).toNat = a.toNat % 2 ^ 31 := by
    rw [or_and, ← and_valid_toNat]
    exact congrArg UInt32.toNat (UInt32.or_zero (a := a &&& 0x7fffffff))
  have hhigh : 2 ^ 31 ≤ (a ||| 0x80000000).toNat := by
    rw [UInt32.toNat_or]
    exact Nat.right_le_or
  have hlt := (a ||| 0x80000000).toNat_lt
  rw [and_valid_toNat] at hlow
  omega

theorem or_valid_fields {tag : UInt32} {type id size : Nat} (h : HasFields tag type id size) :
    HasFields (tag ||| 0x80000000) type id size := by
  refine h.of_low ?_
  rw [← UInt32.toNat_inj, and_valid_toNat, and_valid_toNat, or_valid_toNat]
  omega

theorem forward_tag {r : Record} {rs : List Record} {ptag : UInt32}
    (h : ptag &&& 0x7fffffff = lastPtag 0xffffffff rs &&& 0x7fffffff) :
    (lfsFrombe32 (be32 (r.tag ^^^ lastPtag 0xffffffff rs)) ^^^ ptag) ||| 0x80000000 = r.tag ||| 0x80000000 := by
  have hlow : (lfsFrombe32 (be32 (r.tag ^^^ lastPtag 0xffffffff rs)) ^^^ ptag) &&& 0x7fffffff =
      r.tag &&& 0x7fffffff := by
    rw [lfsFrombe32_be32, UInt32.xor_comm r.tag]
    exact xor_xor_and h
  rw [← UInt32.toNat_inj, or_valid_toNat, or_valid_toNat, ← and_valid_toNat, hlow, and_valid_toNat]

/-- From any record on, going forward: the records that are left, then the attributes. -/
theorem Describes.streams_from (h : Describes c dev dir rs) (hc : Workable c) {pre post : List Record} (hrs : pre ++ post = rs)
    {off : Nat} {ptag : UInt32} (hoff : add32 off (lfsTagDsize ptag).toNat = 4 + (encode 0xffffffff pre).length)
    (hptag : ptag &&& 0x7fffffff = lastPtag 0xffffffff pre &&& 0x7fffffff) (attrs : List Mattr)
    (hasseenmove : Bool) :
    Streams (deviceRead c dev) gpending dir ⟨off, ptag, attrs, hasseenmove⟩
      (diskItems dir.pair.1 (4 + (encode 0xffffffff pre).length) post ++
        (attrItems attrs ++ moveItem gpending dir hasseenmove)) := by
  induction post generalizing pre off ptag with
  | nil =>
    rw [List.append_nil] at hrs
    subst hrs
    exact streams_attrs (s := ⟨off, ptag, attrs, hasseenmove⟩) (by rw [h.off_eq, hoff])
  | cons r post ih =>
    have hsplit : (pre ++ [r]) ++ post = rs := by
      rw [List.append_assoc]
      exact hrs
    have hlen := encode_length_snoc 0xffffffff pre r
    have hpos := r.length
    have hall : (encode 0xffffffff (pre ++ [r])).length ≤ (encode 0xffffffff rs).length := by
      rw [← hsplit, encode_append 0xffffffff (pre ++ [r]), List.length_append]
      exact Nat.le_add_right _ _
    have hend := h.off_eq
    have hfit := h.fit
    have hholds : Holds dev dir.pair.1.toNat 4 (encode 0xffffffff (pre ++ [r])) := by
      have hholds := h.holds
      rw [← hsplit, encode_append, holds_append] at hholds
      exact hholds.1
    have hnext : traverseNext (deviceRead c dev) gpending dir ⟨off, ptag, attrs, hasseenmove⟩ =
        some (.ok (some (r.tag ||| 0x80000000, .disk dir.pair.1 (4 + (encode 0xffffffff pre).length + 4),
          ⟨4 + (encode 0xffffffff pre).length, r.tag ||| 0x80000000, attrs, hasseenmove⟩))) := by
      have hlt : 4 + (encode 0xffffffff pre).length < dir.off := by omega
      have hread := read_tag hholds hc h.block_lt (by omega)
      have hdata : add32 (4 + (encode 0xffffffff pre).length) 4 = 4 + (encode 0xffffffff pre).length + 4 :=
        hc.add32_eq (by omega)
      simp only [traverseNext, hoff, hdata, if_pos hlt, hread, forward_tag hptag]
    have hlow : (r.tag ||| 0x80000000) &&& 0x7fffffff = r.tag := by
      rw [← UInt32.toNat_inj, and_valid_toNat, or_valid_toNat]
      have hvalid := lfsTagIsvalid_iff.mp r.valid
      omega
    refine .next hnext ?_
    rw [Nat.add_assoc 4, ← hlen]
    refine ih hsplit ?_ ?_
    · have hsame : (r.tag ||| 0x80000000) &&& 0x7fffffff = r.tag &&& 0x7fffffff := by
        rw [hlow, ← nextPtag_and r, UInt32.and_assoc, UInt32.and_self]
      rw [dsize_of_low hsame, hlen, hc.add32_eq (by omega)]
      omega
    · rw [hlow, lastPtag_snoc, nextPtag_and]

theorem Describes.streams (h : Describes c dev dir rs) (hc : Workable c) (gpending : Gstate) (attrs : List Mattr)
    (hasseenmove : Bool) :
    Streams (deviceRead c dev) gpending dir ⟨0, LFS_BLOCK_NULL, attrs, hasseenmove⟩
      (diskItems dir.pair.1 4 rs ++ (attrItems attrs ++ moveItem gpending dir hasseenmove)) :=
  h.streams_from hc (List.nil_append rs) (by decide) rfl attrs hasseenmove

end Stream

/-! ## What the tags say -/

structure Source where
  ondisk : Bool
  size : Nat
  buffer : Buffer

def Source.Removed (v : Source) : Prop := v.size = 0x3ff

instance (v : Source) : Decidable v.Removed := inferInstanceAs (Decidable (_ = _))

def sourceOf (x : UInt32 × Buffer) : Source := ⟨!lfsTagIsvalid x.1, (lfsTagSize x.1).toNat, x.2⟩

def Silent (x : UInt32 × Buffer) : Prop :=
  lfsTagType3 x.1 = LFS_FROM_NOOP ∨ lfsTagType3 x.1 = LFS_FROM_USERATTRS

instance (x : UInt32 × Buffer) : Decidable (Silent x) := inferInstanceAs (Decidable (_ ∨ _))

structure PlainItem (x : UInt32 × Buffer) : Prop where
  proper : ProperTag x.1
  notMove : lfsTagType3 x.1 ≠ LFS_FROM_MOVE
  noAttrs : lfsTagType3 x.1 = LFS_FROM_USERATTRS → lfsTagSize x.1 = 0 ∧ ∃ attrs, x.2 = .userattrs attrs

def itemEntry (x : UInt32 × Buffer) : Option (Edit Nat Source) :=
  if Silent x then none else tagEntry x.1 (sourceOf x)

/-- The types of which an entry has one value: a file has one name and one structure. -/
def typeClass (type : Nat) : Nat := if type / 2 ^ 8 % 2 = 1 then type else type / 2 ^ 8 * 2 ^ 8

/-! ## The filter -/

section Filter

variable {tag tag' filtertag : UInt32} {type id size T i S j : Nat} {buffer : Buffer}

theorem mask_bit_iff (h : HasFields tag type id size) :
    tag &&& mkTag 0x100 0 0 ≠ 0 ↔ type / 2 ^ 8 % 2 = 1 := by
  have hand : (tag &&& mkTag 0x100 0 0).toNat = tag.toNat / 2 ^ 28 % 2 ^ 1 * 2 ^ 28 := and_ones_toNat (by decide)
  obtain ⟨heq, htype, hid, hsize⟩ := h
  rw [ne_eq, ← UInt32.toNat_inj, hand]
  show ¬_ = 0 ↔ _
  omega

/-- Two tags are about the same value when they are of the same class. -/
theorem redundant_iff (h : HasFields tag type id size) (hf : HasFields filtertag T i S) :
    ((if tag &&& mkTag 0x100 0 0 ≠ 0 then mkTag 0x7ff 0x3ff 0 else mkTag 0x700 0x3ff 0) &&& tag =
      (if tag &&& mkTag 0x100 0 0 ≠ 0 then mkTag 0x7ff 0x3ff 0 else mkTag 0x700 0x3ff 0) &&& filtertag) ↔
      id = i ∧ typeClass type = typeClass T := by
  have htype := h.type_lt
  have hT := hf.type_lt
  have hupper : ∀ {k : Nat}, k < 2 ^ 11 → (0x700 : UInt32).toNat &&& k = k / 2 ^ 8 * 2 ^ 8 := by
    intro k hk
    have hand := upper_and 8 7 k
    rw [Nat.and_comm 7, Nat.and_two_pow_sub_one_eq_mod _ 3, Nat.mod_eq_of_lt (by omega),
      Nat.mul_comm _ (k / _)] at hand
    exact hand
  unfold typeClass
  by_cases hbit : type / 2 ^ 8 % 2 = 1
  · rw [if_pos ((mask_bit_iff h).mpr hbit), mask_eq_iff h hf (by decide), full_and htype, full_and hT, if_pos hbit]
    split <;> omega
  · rw [if_neg (fun hne => hbit ((mask_bit_iff h).mp hne)), mask_eq_iff h hf (by decide), hupper htype,
      hupper hT, if_neg hbit]
    split <;> omega

theorem delete_iff (h : HasFields tag type id size) (hf : HasFields filtertag T i S) :
    mkTag 0x7ff 0x3ff 0 &&& tag = mkTag LFS_TYPE_DELETE 0 0 ||| (mkTag 0 0x3ff 0 &&& filtertag) ↔
      type = 0x4ff ∧ id = i := by
  have hand := mask_and_toNat h (m := 0x7ff) (by decide) (.inr rfl : (0x3ff : UInt32) = 0 ∨ _)
  have hand' := mask_and_toNat hf (m := 0) (by decide) (.inr rfl : (0x3ff : UInt32) = 0 ∨ _)
  have hzero : (0 : UInt32).toNat &&& T = 0 := Nat.zero_and T
  rw [if_neg (by decide), full_and h.type_lt] at hand
  rw [if_neg (by decide), hzero, Nat.zero_mul, Nat.zero_add] at hand'
  have hdelete : (mkTag LFS_TYPE_DELETE 0 0).toNat = 2 ^ 20 * 0x4ff := by decide
  have hid := h.id_lt
  have hi := hf.id_lt
  rw [← UInt32.toNat_inj, hand, UInt32.or_comm,
    toNat_or_of_lt (k := 20) (by rw [hand']; omega) hdelete, hand']
  omega

/-- The tag of the same value with another id. -/
structure Relabels (tag : UInt32) (i : Nat) (tag' : UInt32) (j : Nat) : Prop where
  eq : tag'.toNat + i * 2 ^ 10 = tag.toNat + j * 2 ^ 10
  lt : j < 2 ^ 10

theorem HasFields.relabel (h : HasFields tag T i S) (hrel : Relabels tag i tag' j) :
    HasFields tag' T j S := by
  obtain ⟨heq, hT, hi, hS⟩ := h
  obtain ⟨hmove, hj⟩ := hrel
  exact ⟨by omega, hT, hj, hS⟩

theorem HasFields.relabel_valid (h : HasFields tag T i S) (hrel : Relabels tag i tag' j) :
    lfsTagIsvalid tag' = lfsTagIsvalid tag := by
  obtain ⟨heq, hT, hi, hS⟩ := h
  obtain ⟨hmove, hj⟩ := hrel
  rw [Bool.eq_iff_iff, lfsTagIsvalid_iff, lfsTagIsvalid_iff]
  omega

theorem Relabels.refl (h : HasFields tag T i S) : Relabels tag i tag i := ⟨rfl, h.id_lt⟩

theorem Relabels.trans {tag'' : UInt32} {k : Nat} (h : Relabels tag i tag' j) (h' : Relabels tag' j tag'' k) :
    Relabels tag i tag'' k := by
  obtain ⟨heq, -⟩ := h
  obtain ⟨heq', hk⟩ := h'
  exact ⟨by linarith, hk⟩

theorem typeClass_ne (htype : 2 ^ 10 ≤ type) (hT : T < 2 ^ 10) : ¬typeClass type = typeClass T := by
  unfold typeClass
  split <;> split <;> omega

theorem HasFields.relabel_succ (hf : HasFields filtertag T i S) (hi : i + 1 < 2 ^ 10) :
    Relabels filtertag i (filtertag + mkTag 0 1 0) (i + 1) := by
  obtain ⟨heq, -, -, hS⟩ := hf
  have hlt := filtertag.toNat_lt
  have hone : (mkTag 0 1 0).toNat = 1024 := by decide
  refine ⟨?_, hi⟩
  rw [UInt32.toNat_add, hone]
  omega

theorem HasFields.relabel_pred (hf : HasFields filtertag T i S) (hi : 0 < i) :
    Relabels filtertag i (filtertag + mkTag 0 (0 - 1) 0) (i - 1) := by
  obtain ⟨heq, -, hid, hS⟩ := hf
  have hlt := filtertag.toNat_lt
  have hneg : (mkTag 0 (0 - 1) 0).toNat = 2 ^ 32 - 1024 := by decide
  refine ⟨?_, by omega⟩
  rw [UInt32.toNat_add, hneg]
  omega

/-- One turn of the filter. The tag is redundant, because it says that there is no value, or there is a later
one, or its entry is deleted. If it is not, its entry may have moved. -/
theorem filter_turn {x : UInt32 × Buffer} (hx : ProperTag x.1) (hf : HasFields filtertag T i S)
    (hT : T < 2 ^ 10) (hi : ∀ e j, tagEntry x.1 (sourceOf x) = some e → e.after i = some j → j < 2 ^ 10) :
    lfsDirTraverseFilter x.1 x.2 filtertag = (1, filtertag) ∧
        (S = 0x3ff ∨ ∃ e, tagEntry x.1 (sourceOf x) = some e ∧
          (e.Overrides typeClass (typeClass T) i ∨ e.after i = none)) ∨
      ∃ tag' j, lfsDirTraverseFilter x.1 x.2 filtertag = (0, tag') ∧ Relabels filtertag i tag' j ∧
        (∀ e, tagEntry x.1 (sourceOf x) = some e → ¬e.Overrides typeClass (typeClass T) i ∧
          e.after i = some j) ∧ (tagEntry x.1 (sourceOf x) = none → i = j) := by
  have h := hasFields x.1
  have hsplice : lfsTagType1 x.1 = LFS_TYPE_SPLICE ↔ (lfsTagType3 x.1).toNat / 2 ^ 8 = 4 := by
    rw [← UInt32.toNat_inj, h.type1]
    show _ = 4 * 2 ^ 8 ↔ _
    omega
  have hle : lfsTagId x.1 ≤ lfsTagId filtertag ↔ (lfsTagId x.1).toNat ≤ i := by
    rw [UInt32.le_iff_toNat_le, hf.tagId]
  unfold lfsDirTraverseFilter
  simp only [redundant_iff h hf, delete_iff h hf, hf.isdelete, hsplice, hle]
  by_cases hS : S = 0x3ff
  · exact .inl ⟨by simp [hS], .inl hS⟩
  cases he : tagEntry x.1 (sourceOf x) with
  | none =>
    obtain ⟨htype, hnot⟩ := tagEntry_none he
    have hclass := typeClass_ne htype hT
    refine .inr ⟨filtertag, i, ?_, .refl hf, fun e he => (by cases he), fun _ => rfl⟩
    rw [if_neg (by omega), if_neg (by omega)]
  | some e =>
    cases e with
    | create k =>
      obtain ⟨htype, rfl⟩ := tagEntry_create he
      have hhigh : 2 ^ 10 ≤ (lfsTagType3 x.1).toNat := by omega
      have hclass := typeClass_ne hhigh hT
      rw [if_neg (by omega)]
      by_cases hk : (lfsTagId x.1).toNat ≤ i
      · refine .inr ⟨filtertag + mkTag 0 1 0, i + 1, ?_, hf.relabel_succ (hi _ _ he (if_pos hk)), fun e he => ?_,
          fun he => (by cases he)⟩
        · rw [if_pos (by omega), splice_create htype]
        · cases he
          exact ⟨fun h => h, if_pos hk⟩
      · refine .inr ⟨filtertag, i, if_neg (by omega), .refl hf, fun e he => ?_, fun he => (by cases he)⟩
        cases he
        exact ⟨fun h => h, if_neg hk⟩
    | delete k =>
      obtain ⟨htype, rfl⟩ := tagEntry_delete hx he
      have hhigh : 2 ^ 10 ≤ (lfsTagType3 x.1).toNat := by omega
      have hclass := typeClass_ne hhigh hT
      by_cases hself : (lfsTagId x.1).toNat = i
      · exact .inl ⟨if_pos (by omega), .inr ⟨_, rfl, .inr (if_pos hself)⟩⟩
      rw [if_neg (by omega)]
      by_cases hk : (lfsTagId x.1).toNat < i
      · refine .inr ⟨filtertag + mkTag 0 (0 - 1) 0, i - 1, ?_, hf.relabel_pred (by omega), fun e he => ?_,
          fun he => (by cases he)⟩
        · rw [if_pos (by omega), splice_delete htype]
        · cases he
          refine ⟨fun h => h, ?_⟩
          rw [Edit.after, if_neg hself, if_pos hk]
      · refine .inr ⟨filtertag, i, if_neg (by omega), .refl hf, fun e he => ?_, fun he => (by cases he)⟩
        cases he
        refine ⟨fun h => h, ?_⟩
        rw [Edit.after, if_neg hself, if_neg hk]
    | put k key v =>
      obtain ⟨htype, rfl, rfl, rfl⟩ := tagEntry_put he
      by_cases hover : (lfsTagId x.1).toNat = i ∧ typeClass (lfsTagType3 x.1).toNat = typeClass T
      · exact .inl ⟨if_pos (.inl hover), .inr ⟨_, rfl, .inl hover⟩⟩
      · refine .inr ⟨filtertag, i, ?_, .refl hf, fun e he => ?_, fun he => (by cases he)⟩
        · rw [if_neg (by omega), if_neg (by omega)]
        · cases he
          exact ⟨hover, rfl⟩

def passed (diff : UInt32) (items : List (UInt32 × Buffer)) : List (UInt32 × Buffer) :=
  (items.filter fun x => ¬Silent x).map fun x => (x.1 + mkTag 0 diff 0, x.2)

theorem passed_silent {x : UInt32 × Buffer} (h : Silent x) (diff : UInt32) (items : List (UInt32 × Buffer)) :
    passed diff (x :: items) = passed diff items := by
  rw [passed, List.filter_cons_of_neg (by simpa using h)]
  rfl

theorem passed_loud {x : UInt32 × Buffer} (h : ¬Silent x) (diff : UInt32) (items : List (UInt32 × Buffer)) :
    passed diff (x :: items) = (x.1 + mkTag 0 diff 0, x.2) :: passed diff items := by
  rw [passed, List.filter_cons_of_pos (by simpa using h)]
  rfl

/-- What the filter makes of a tag is what becomes of its value in the rest of the log. -/
theorem filter_eq {items : List (UInt32 × Buffer)} (hproper : ∀ x ∈ items, ProperTag x.1)
    (hf : HasFields filtertag T i S) (hT : T < 2 ^ 10)
    (hremains : Remains (0x3ff + 1) (items.filterMap itemEntry) i) :
    (eachTag lfsDirTraverseFilter (passed 0 items) filtertag).1 = 1 ∧
        (survive typeClass (typeClass T) (items.filterMap itemEntry) i = none ∨ S = 0x3ff) ∨
      ∃ tag' j, eachTag lfsDirTraverseFilter (passed 0 items) filtertag = (0, tag') ∧
        Relabels filtertag i tag' j ∧
        survive typeClass (typeClass T) (items.filterMap itemEntry) i = some j := by
  induction items generalizing filtertag i with
  | nil => exact .inr ⟨filtertag, i, rfl, .refl hf, rfl⟩
  | cons x items ih =>
    have hrest : ∀ x ∈ items, ProperTag x.1 := fun x hx => hproper x (List.mem_cons_of_mem _ hx)
    by_cases hsilent : Silent x
    · have hentry : itemEntry x = none := if_pos hsilent
      rw [List.filterMap_cons_none hentry] at hremains ⊢
      rw [passed_silent hsilent]
      exact ih hrest hf hremains
    · have hentry : itemEntry x = tagEntry x.1 (sourceOf x) := if_neg hsilent
      have hzero : x.1 + mkTag 0 0 0 = x.1 := UInt32.add_zero _
      rw [passed_loud hsilent, hzero, eachTag]
      have hi : ∀ e j, tagEntry x.1 (sourceOf x) = some e → e.after i = some j → j < 2 ^ 10 := by
        intro e j he hafter
        rw [List.filterMap_cons_some (hentry.trans he)] at hremains
        exact (hremains.2 j hafter).lt
      rcases filter_turn (hproper x List.mem_cons_self) hf hT hi with
        ⟨hturn, hwhy⟩ | ⟨tag', j, hturn, hrel, hsome, hnone⟩
      · refine .inl ⟨by rw [hturn]; rfl, ?_⟩
        rcases hwhy with hS | ⟨e, he, hwhy⟩
        · exact .inr hS
        · rw [List.filterMap_cons_some (hentry.trans he), survive]
          rcases hwhy with hover | hafter
          · exact .inl (if_pos hover)
          · rw [hafter, Option.bind_none, ite_self]
            exact .inl rfl
      · have hmove : Remains (0x3ff + 1) (items.filterMap itemEntry) j ∧
            survive typeClass (typeClass T) ((x :: items).filterMap itemEntry) i =
              survive typeClass (typeClass T) (items.filterMap itemEntry) j := by
          cases he : tagEntry x.1 (sourceOf x) with
          | none =>
            rw [List.filterMap_cons_none (hentry.trans he)] at hremains ⊢
            rw [← hnone he]
            exact ⟨hremains, rfl⟩
          | some e =>
            obtain ⟨hover, hafter⟩ := hsome e he
            rw [List.filterMap_cons_some (hentry.trans he)] at hremains ⊢
            rw [survive, if_neg hover, hafter]
            exact ⟨hremains.2 j hafter, rfl⟩
        rw [hturn, hmove.2]
        have hnext : (if (0 : Int) ≠ 0 then ((0 : Int), tag') else
            eachTag lfsDirTraverseFilter (passed 0 items) tag') =
              eachTag lfsDirTraverseFilter (passed 0 items) tag' := if_neg (fun h => h rfl)
        rw [hnext]
        refine (ih hrest (hf.relabel hrel) hmove.1).imp_right ?_
        rintro ⟨tag'', k, hrun, hrel', hsurvive⟩
        exact ⟨tag'', k, hrun, hrel.trans hrel', hsurvive⟩

end Filter

end LfsTool
