import LfsTool.Traverse

/-!
# LfsTool.TraverseContent

What `lfs_dir_traverse` passes on.

* `traverse_all`: without a mask, everything.
* `traverse_selected`: with a mask, what is left of the log after compaction.
* `contents`: what the tags say, with the values. `Describes.traverse`: every entry in the range has the
  values it had.
* `lfsDirTraverse_compact`, `lfsDirTraverse_move`: the traversals of a compaction and of a move.
-/

namespace LfsTool

open BitCount BlockArray Splices

/-! ## Traversals -/

section Run

variable {rd : BdRead} {gpending : Gstate} {dir : Mdir} {s s' : Stream} {tag tag' : UInt32} {buffer : Buffer}
  {items : List (UInt32 × Buffer)} {tmask ttag first last diff : UInt32} {fuel : Nat} {τ : Type}
  {cb : UInt32 → Buffer → τ → Int × τ} {t : τ}

theorem eachTag_append (cb : UInt32 → Buffer → τ → Int × τ) (items items' : List (UInt32 × Buffer)) (t : τ) :
    eachTag cb (items ++ items') t =
      if (eachTag cb items t).1 ≠ 0 then eachTag cb items t else eachTag cb items' (eachTag cb items t).2 := by
  induction items generalizing t with
  | nil => exact (if_neg fun h => h rfl).symm
  | cons x items ih =>
    simp only [List.cons_append, eachTag]
    by_cases herr : (cb x.1 x.2 t).1 ≠ 0
    · simp only [if_pos herr]
    · simp only [if_neg herr, ih]

theorem eachTag_one (cb : UInt32 → Buffer → τ → Int × τ) (tag : UInt32) (buffer : Buffer) (t : τ) :
    eachTag cb [(tag, buffer)] t = cb tag buffer t := by
  rw [eachTag, eachTag]
  by_cases herr : (cb tag buffer t).1 = 0
  · rw [if_neg (fun h => h herr), ← herr]
  · rw [if_pos herr]

theorem traverse_skip (hnext : traverseNext rd gpending dir s = some (.ok (some (tag, buffer, s'))))
    (hskip : mkTag 0x7ff 0 0 &&& tmask &&& tag ≠ mkTag 0x7ff 0 0 &&& tmask &&& ttag ∨ lfsTagId tmask ≠ 0 ∧
      ∃ filter tag', lfsDirTraverse rd gpending fuel dir s' 0 0 0 0 0 lfsDirTraverseFilter tag =
        some (filter, tag') ∧
        (0 < filter ∨ filter = 0 ∧ ¬(first ≤ lfsTagId tag' ∧ lfsTagId tag' < last))) :
    lfsDirTraverse rd gpending (fuel + 1) dir s tmask ttag first last diff cb t =
      lfsDirTraverse rd gpending fuel dir s' tmask ttag first last diff cb t := by
  rw [lfsDirTraverse, hnext]
  simp only
  by_cases hmask : mkTag 0x7ff 0 0 &&& tmask &&& tag ≠ mkTag 0x7ff 0 0 &&& tmask &&& ttag
  · rw [if_pos hmask]
  · obtain ⟨hid, filter, tag', hfilter, hwhy⟩ := hskip.resolve_left hmask
    rw [if_neg hmask, if_pos hid, hfilter]
    rcases hwhy with hpos | ⟨rfl, hrange⟩
    · simp only [if_neg (show ¬filter < 0 by omega), if_pos (show filter ≠ 0 by omega)]
    · simp only [Int.lt_irrefl, if_false, ne_eq, not_true_eq_false]
      rw [if_pos ⟨hid, hrange⟩]

theorem traverse_step (first last diff : UInt32)
    (hnext : traverseNext rd gpending dir s = some (.ok (some (tag, buffer, s'))))
    (hmask : mkTag 0x7ff 0 0 &&& tmask &&& tag = mkTag 0x7ff 0 0 &&& tmask &&& ttag)
    (hfilter : (if lfsTagId tmask ≠ 0 then
        lfsDirTraverse rd gpending fuel dir s' 0 0 0 0 0 lfsDirTraverseFilter tag
      else some (0, tag)) = some (0, tag'))
    (hrange : ¬(lfsTagId tmask ≠ 0 ∧ ¬(first ≤ lfsTagId tag' ∧ lfsTagId tag' < last)))
    (hplain : PlainItem (tag', buffer)) (cb : UInt32 → Buffer → τ → Int × τ) (t : τ) :
    lfsDirTraverse rd gpending (fuel + 1) dir s tmask ttag first last diff cb t =
      if (eachTag cb (passed diff [(tag', buffer)]) t).1 ≠ 0 then
        some (eachTag cb (passed diff [(tag', buffer)]) t)
      else lfsDirTraverse rd gpending fuel dir s' tmask ttag first last diff cb
        (eachTag cb (passed diff [(tag', buffer)]) t).2 := by
  rw [lfsDirTraverse, hnext]
  simp only [ne_eq, hmask, not_true_eq_false, if_false]
  rw [hfilter]
  simp only [Int.lt_irrefl, if_false, not_true_eq_false]
  rw [if_neg hrange, if_neg hplain.notMove]
  by_cases hsilent : Silent (tag', buffer)
  · have hnone : eachTag cb (passed diff [(tag', buffer)]) t = (0, t) := by
      rw [passed_silent hsilent]
      rfl
    rw [hnone]
    rcases hsilent with hnoop | hattrs
    · rw [if_pos hnoop]
    · obtain ⟨hsize, attrs, rfl⟩ := hplain.noAttrs hattrs
      by_cases hnoop : lfsTagType3 tag' = LFS_FROM_NOOP
      · rw [if_pos hnoop]
      · rw [if_neg hnoop, if_pos hattrs]
        simp only [show lfsTagSize tag' = 0 from hsize]
        rfl
  · have hone : passed diff [(tag', buffer)] = [(tag' + mkTag 0 diff 0, buffer)] := passed_loud hsilent diff []
    rw [if_neg fun h => hsilent (.inl h), if_neg fun h => hsilent (.inr h), hone, eachTag_one]

theorem traverse_all (hstream : Streams rd gpending dir s items) (hplain : ∀ x ∈ items, PlainItem x)
    (hfuel : items.length ≤ fuel) :
    lfsDirTraverse rd gpending fuel dir s 0 0 first last diff cb t = some (eachTag cb (passed diff items) t) := by
  induction hstream generalizing fuel t with
  | done hnone =>
    cases fuel <;> rw [lfsDirTraverse, hnone] <;> rfl
  | @next s s' tag buffer items hnext hrest ih =>
    rw [List.length_cons] at hfuel
    obtain ⟨fuel, rfl⟩ : ∃ k, fuel = k + 1 := ⟨fuel - 1, by omega⟩
    have hx := hplain _ List.mem_cons_self
    have happend : passed diff ((tag, buffer) :: items) = passed diff [(tag, buffer)] ++ passed diff items := by
      rw [passed, passed, passed, ← List.map_append, ← List.filter_append]
      rfl
    rw [traverse_step _ _ _ hnext (by simp) (if_neg fun h => h rfl) (fun h => h.1 rfl) hx,
      ih (fun x hx => hplain x (List.mem_cons_of_mem _ hx)) (by omega), happend, eachTag_append]
    split <;> rfl

def selected (m T : UInt32) (type : Nat) : Bool := decide (m.toNat &&& type = m.toNat &&& T.toNat)

theorem mask_selects {m T : UInt32} (hm : m.toNat < 2 ^ 11) (hT : T.toNat < 2 ^ 11) (tag : UInt32) :
    mkTag 0x7ff 0 0 &&& mkTag m 0x3ff 0 &&& tag = mkTag 0x7ff 0 0 &&& mkTag m 0x3ff 0 &&& mkTag T 0 0 ↔
      selected m T (lfsTagType3 tag).toNat = true := by
  have hzero : (0 : UInt32).toNat < 2 ^ 10 := by decide
  have hmask := mkTag_isTag hm (show (0x3ff : UInt32).toNat < 2 ^ 10 by decide) hzero
  have hboth : mkTag 0x7ff 0 0 &&& mkTag m 0x3ff 0 = mkTag m 0 0 := by
    obtain ⟨hm', -⟩ := isTag_iff.mp (mkTag_isTag hm hzero hzero)
    have hand := mask_and_toNat hmask.toHasFields (m := 0x7ff) (by decide) (.inl rfl)
    rw [full_and hm, if_pos rfl] at hand
    rw [← UInt32.toNat_inj, hand, hm']
    show _ + 0 = _ + 0 * 2 ^ 10 + 0
    rw [Nat.zero_mul, Nat.add_zero]
  rw [hboth, mask_type_eq_iff (hasFields tag) (mkTag_isTag hT hzero hzero).toHasFields hm, selected,
    decide_eq_true_eq]

/-- The number of entries as the tags are met. What stands for attributes is about one of them. -/
def itemGrow (n : Nat × Bool) (x : UInt32 × Buffer) : Option (Nat × Bool) :=
  if Silent x then if (lfsTagId x.1).toNat ≤ n.1 then some n else none
  else match tagEntry x.1 (sourceOf x) with
    | some e => grow 0x3ff n e
    | none => some n

theorem itemGrow_log {n n' : Nat × Bool} (h : items.foldlM itemGrow n = some n') :
    (items.filterMap itemEntry).foldlM (grow 0x3ff) n = some n' := by
  induction items generalizing n with
  | nil => exact h
  | cons x items ih =>
    obtain ⟨n₁, hx, hrest⟩ := Option.bind_eq_some_iff.mp h
    unfold itemGrow at hx
    by_cases hsilent : Silent x
    · have hentry : itemEntry x = none := if_pos hsilent
      rw [if_pos hsilent] at hx
      rw [List.filterMap_cons_none hentry]
      split at hx
      · cases hx
        exact ih hrest
      · cases hx
    · have hentry : itemEntry x = tagEntry x.1 (sourceOf x) := if_neg hsilent
      rw [if_neg hsilent] at hx
      cases he : tagEntry x.1 (sourceOf x) with
      | none =>
        rw [he] at hx
        cases hx
        rw [List.filterMap_cons_none (hentry.trans he)]
        exact ih hrest
      | some e =>
        rw [he] at hx
        rw [List.filterMap_cons_some (hentry.trans he), List.foldlM_cons, show grow 0x3ff n e = some n₁ from hx]
        exact ih hrest

section Relabel

variable {i j : Nat} {x : UInt32 × Buffer}

theorem silent_relabel (hrel : Relabels x.1 (lfsTagId x.1).toNat tag' j) :
    Silent (tag', x.2) ↔ Silent x := by
  have htype : lfsTagType3 tag' = lfsTagType3 x.1 := by
    rw [← UInt32.toNat_inj, ((hasFields x.1).relabel hrel).type3]
  unfold Silent
  rw [htype]

theorem PlainItem.relabel (h : PlainItem x) (hrel : Relabels x.1 (lfsTagId x.1).toNat tag' j) :
    PlainItem (tag', x.2) := by
  have hfields := (hasFields x.1).relabel hrel
  have htype : lfsTagType3 tag' = lfsTagType3 x.1 := by
    rw [← UInt32.toNat_inj, hfields.type3]
  have hsize : lfsTagSize tag' = lfsTagSize x.1 := by
    rw [← UInt32.toNat_inj, hfields.tagSize]
  obtain ⟨hproper, hmove, hattrs⟩ := h
  refine ⟨?_, htype ▸ hmove, fun hu => ?_⟩
  · unfold ProperTag at hproper ⊢
    rwa [htype, hsize]
  · rw [hsize]
    exact hattrs (htype ▸ hu)

/-- With another id the tag says the same about another entry. -/
theorem itemEntry_relabel {v : Source} {k : Nat} (hx : itemEntry x = some (.put i k v))
    (hrel : Relabels x.1 i tag' j) : itemEntry (tag', x.2) = some (.put j k v) := by
  unfold itemEntry at hx
  split at hx
  · cases hx
  · rename_i hsilent
    obtain ⟨htype, rfl, rfl, rfl⟩ := tagEntry_put hx
    have hfields := (hasFields x.1).relabel hrel
    have hsource : sourceOf (tag', x.2) = sourceOf x := by
      simp only [sourceOf, hfields.tagSize, (hasFields x.1).relabel_valid hrel]
    rw [itemEntry, if_neg (fun h => hsilent ((silent_relabel hrel).mp h)), tagEntry, hfields.type3, hfields.tagId,
      if_neg (by omega), if_pos htype, hsource]

theorem relabel_shift {type size : Nat} {base : UInt32} (h : HasFields tag type j size)
    (hfirst : first.toNat ≤ j) (hlt : j - first.toNat + base.toNat < 2 ^ 10) :
    Relabels tag j (tag + mkTag 0 (base - first) 0) (j - first.toNat + base.toNat) := by
  obtain ⟨heq, -, hid, hsize⟩ := h
  have htag := tag.toNat_lt
  have hbase := base.toNat_lt
  have hf := first.toNat_lt
  have hmk : (mkTag 0 (base - first) 0).toNat = (base - first).toNat * 2 ^ 10 % 2 ^ 32 := by
    have hor : mkTag 0 (base - first) 0 = (base - first) <<< 10 := by
      rw [mkTag, UInt32.or_zero]
      exact UInt32.zero_or
    rw [hor, UInt32.toNat_shiftLeft]
    show _ <<< 10 % 2 ^ 32 = _
    rw [Nat.shiftLeft_eq]
  refine ⟨?_, hlt⟩
  rw [UInt32.toNat_add, hmk, UInt32.toNat_sub]
  omega

end Relabel

theorem itemGrow_le {n n' : Nat × Bool} {x : UInt32 × Buffer} (h : itemGrow n x = some n') (hn : n.1 ≤ 0x3ff) :
    n'.1 ≤ 0x3ff ∧ ((lfsTagType3 x.1).toNat < 2 ^ 10 → (lfsTagId x.1).toNat ≤ n'.1) := by
  unfold itemGrow at h
  split at h
  · split at h
    · cases h
      exact ⟨hn, fun _ => ‹_›⟩
    · cases h
  · cases he : tagEntry x.1 (sourceOf x) with
    | none =>
      rw [he] at h
      cases h
      exact ⟨hn, fun htype => absurd (tagEntry_none he).1 (Nat.not_le.mpr htype)⟩
    | some e =>
      rw [he] at h
      refine ⟨grow_le h hn, fun hlt => ?_⟩
      cases e with
      | create i =>
        obtain ⟨htype, -⟩ := tagEntry_create he
        omega
      | delete i =>
        rw [tagEntry, if_neg (by omega), if_pos hlt] at he
        cases he
      | put i k v =>
        obtain ⟨-, rfl, -⟩ := tagEntry_put he
        obtain ⟨-, rfl⟩ := grow_put.mp h
        exact Nat.le_trans (Nat.le_succ _) (Nat.le_max_right _ _)

theorem compacts_skip {x : UInt32 × Buffer} {kept : List (Edit Nat Source)}
    (h : Compacts typeClass (fun v => decide v.Removed) (items.filterMap itemEntry) kept)
    (hx : ∀ i k v, itemEntry x = some (.put i k v) →
      survive typeClass (typeClass k) (items.filterMap itemEntry) i = none ∨ v.Removed) :
    Compacts typeClass (fun v => decide v.Removed) ((x :: items).filterMap itemEntry) kept := by
  cases he : itemEntry x with
  | none =>
    rw [List.filterMap_cons_none he]
    exact h
  | some e =>
    rw [List.filterMap_cons_some he]
    cases e with
    | create i => exact .create i h
    | delete i => exact .delete i h
    | put i k v => exact .drop ((hx i k v he).imp_right decide_eq_true) h

theorem itemEntry_selected (htype : (lfsTagType3 tag).toNat < 2 ^ 10) (hsilent : ¬Silent (tag, buffer)) :
    itemEntry (tag, buffer) =
      some (.put (lfsTagId tag).toNat (lfsTagType3 tag).toNat (sourceOf (tag, buffer))) := by
  have hsplice : ¬(lfsTagType3 tag).toNat / 2 ^ 8 = 4 := by omega
  rw [itemEntry, if_neg hsilent, tagEntry, if_neg hsplice, if_pos htype]

/-- What a traversal with a mask passes on: what is left of the log, of the entries in a range. -/
structure Passes (rd : BdRead) (gpending : Gstate) (dir : Mdir) (m T first last base : UInt32) (s : Stream)
    (items : List (UInt32 × Buffer)) (kept : List (Edit Nat Source)) (passedOn : List (UInt32 × Buffer)) :
    Prop where
  compacts : Compacts typeClass (fun v => decide v.Removed) (items.filterMap itemEntry) kept
  entries : passedOn.map itemEntry =
    (kept.filterMap (slice (selected m T) first.toNat last.toNat base.toNat)).map some
  run : ∀ {τ : Type} (cb : UInt32 → Buffer → τ → Int × τ) (t : τ) (fuel : Nat), items.length ≤ fuel →
    lfsDirTraverse rd gpending fuel dir s (mkTag m 0x3ff 0) (mkTag T 0 0) first last (base - first) cb t =
      some (eachTag cb passedOn t)

section Passes

variable {m T base : UInt32} {kept kept' : List (Edit Nat Source)} {passedOn : List (UInt32 × Buffer)}

def PassesNothing (rd : BdRead) (gpending : Gstate) (dir : Mdir) (m T first last base : UInt32) (s s' : Stream)
    (n : Nat) : Prop :=
  ∀ {τ : Type} (cb : UInt32 → Buffer → τ → Int × τ) (t : τ) (fuel : Nat), n ≤ fuel →
    lfsDirTraverse rd gpending (fuel + 1) dir s (mkTag m 0x3ff 0) (mkTag T 0 0) first last (base - first) cb t =
      lfsDirTraverse rd gpending fuel dir s' (mkTag m 0x3ff 0) (mkTag T 0 0) first last (base - first) cb t

theorem Passes.skip (h : Passes rd gpending dir m T first last base s' items kept passedOn)
    (hkept : Compacts typeClass (fun v => decide v.Removed) (((tag, buffer) :: items).filterMap itemEntry) kept')
    (hslice : kept'.filterMap (slice (selected m T) first.toNat last.toNat base.toNat) =
      kept.filterMap (slice (selected m T) first.toNat last.toNat base.toNat))
    (hturn : PassesNothing rd gpending dir m T first last base s s' items.length) :
    Passes rd gpending dir m T first last base s ((tag, buffer) :: items) kept' passedOn := by
  refine ⟨hkept, hslice ▸ h.entries, fun cb t fuel hfuel => ?_⟩
  rw [List.length_cons] at hfuel
  obtain ⟨fuel, rfl⟩ : ∃ k, fuel = k + 1 := ⟨fuel - 1, by omega⟩
  rw [hturn cb t fuel (by omega), h.run cb t fuel (by omega)]

def PassesOne (rd : BdRead) (gpending : Gstate) (dir : Mdir) (m T first last base : UInt32) (s s' : Stream)
    (n : Nat) (x : UInt32 × Buffer) : Prop :=
  ∀ {τ : Type} (cb : UInt32 → Buffer → τ → Int × τ) (t : τ) (fuel : Nat), n ≤ fuel →
    lfsDirTraverse rd gpending (fuel + 1) dir s (mkTag m 0x3ff 0) (mkTag T 0 0) first last (base - first) cb t =
      if (cb x.1 x.2 t).1 ≠ 0 then some (cb x.1 x.2 t)
      else lfsDirTraverse rd gpending fuel dir s' (mkTag m 0x3ff 0) (mkTag T 0 0) first last (base - first) cb
        (cb x.1 x.2 t).2

theorem Passes.one {j k : Nat} {v : Source} {x : UInt32 × Buffer}
    (h : Passes rd gpending dir m T first last base s' items kept passedOn)
    (hkept : Compacts typeClass (fun v => decide v.Removed) (((tag, buffer) :: items).filterMap itemEntry)
      (.put j k v :: kept))
    (hrange : selected m T k ∧ first.toNat ≤ j ∧ j < last.toNat)
    (hentry : itemEntry x = some (.put (j - first.toNat + base.toNat) k v))
    (hturn : PassesOne rd gpending dir m T first last base s s' items.length x) :
    Passes rd gpending dir m T first last base s ((tag, buffer) :: items) (.put j k v :: kept) (x :: passedOn) := by
  refine ⟨hkept, ?_, fun cb t fuel hfuel => ?_⟩
  · rw [List.map_cons, hentry, h.entries, List.filterMap_cons_some (slice_put hrange _ _), List.map_cons]
  · rw [List.length_cons] at hfuel
    obtain ⟨fuel, rfl⟩ : ∃ k, fuel = k + 1 := ⟨fuel - 1, by omega⟩
    rw [hturn cb t fuel (by omega), h.run cb _ fuel (by omega), eachTag]
    split <;> rfl

theorem Passes.unselected (h : Passes rd gpending dir m T first last base s' items kept passedOn)
    (hnext : traverseNext rd gpending dir s = some (.ok (some (tag, buffer, s')))) (hm : m.toNat < 2 ^ 11)
    (hT : T.toNat < 2 ^ 11) (hnot : ¬selected m T (lfsTagType3 tag).toNat = true) :
    ∃ kept, Passes rd gpending dir m T first last base s ((tag, buffer) :: items) kept passedOn := by
  have hturn : PassesNothing rd gpending dir m T first last base s s' items.length := fun cb t fuel _ =>
    traverse_skip hnext (.inl fun heq => hnot ((mask_selects hm hT tag).mp heq))
  by_cases hput : ∃ i k v j, itemEntry (tag, buffer) = some (.put i k v) ∧
      survive typeClass (typeClass k) (items.filterMap itemEntry) i = some j
  · obtain ⟨i, k, v, j, hentry, hsurvive⟩ := hput
    refine ⟨.put j k v :: kept, h.skip ?_ ?_ hturn⟩
    · rw [List.filterMap_cons_some hentry]
      exact .keep hsurvive h.compacts
    · refine List.filterMap_cons_none (if_neg fun hand => hnot ?_)
      unfold itemEntry at hentry
      split at hentry
      · cases hentry
      · obtain ⟨-, -, htype, -⟩ := tagEntry_put hentry
        rw [htype]
        exact hand.1
  · refine ⟨kept, h.skip (compacts_skip h.compacts fun i k v hentry => ?_) rfl hturn⟩
    cases hsurvive : survive typeClass (typeClass k) (items.filterMap itemEntry) i with
    | none => exact .inl rfl
    | some j => exact absurd ⟨i, k, v, j, hentry, hsurvive⟩ hput

end Passes

/-- A traversal with a mask passes on what is left of the log after compaction, of the entries in a range. -/
theorem traverse_selected (first : UInt32) (hstream : Streams rd gpending dir s items)
    (hplain : ∀ x ∈ items, PlainItem x) {m T base : UInt32} (hsel : Selects m T.toNat) (hT : T.toNat < 2 ^ 11)
    {n n' : Nat × Bool} (hn : n.1 ≤ 0x3ff) (hcount : items.foldlM itemGrow n = some n')
    (hbase : base.toNat + (last.toNat - first.toNat) ≤ 2 ^ 10) :
    ∃ kept passedOn, Passes rd gpending dir m T first last base s items kept passedOn := by
  induction hstream generalizing n with
  | done hnone =>
    refine ⟨[], [], .nil, rfl, fun cb t fuel _ => ?_⟩
    cases fuel <;> rw [lfsDirTraverse, hnone] <;> rfl
  | @next s s' tag buffer items hnext hrest ih =>
    have hx := hplain _ List.mem_cons_self
    have hrestPlain : ∀ x ∈ items, PlainItem x := fun x hx => hplain x (List.mem_cons_of_mem _ hx)
    obtain ⟨n₀, hgrow, hcount⟩ := Option.bind_eq_some_iff.mp hcount
    obtain ⟨hn₀, hid⟩ := itemGrow_le hgrow hn
    obtain ⟨kept, passedOn, h⟩ := ih hrestPlain hn₀ hcount
    by_cases hselected : selected m T (lfsTagType3 tag).toNat = true
    · have htype : (lfsTagType3 tag).toNat < 2 ^ 10 :=
        hsel.entries _ (hasFields tag).type_lt (of_decide_eq_true hselected)
      have hremains : Remains (0x3ff + 1) (items.filterMap itemEntry) (lfsTagId tag).toNat :=
        remains_of_count (itemGrow_log hcount) hn₀ (hid htype)
      have hinner : ∀ fuel, items.length ≤ fuel →
          lfsDirTraverse rd gpending fuel dir s' 0 0 0 0 0 lfsDirTraverseFilter tag =
            some (eachTag lfsDirTraverseFilter (passed 0 items) tag) :=
        fun fuel hfuel => traverse_all hrest hrestPlain hfuel
      rcases filter_eq (fun x hx => (hrestPlain x hx).proper) (hasFields tag) htype hremains with
        ⟨herr, hwhy⟩ | ⟨tag', j, hfilter, hrel, hsurvive⟩
      · refine ⟨kept, passedOn, h.skip (compacts_skip h.compacts fun i k v he => ?_) rfl fun cb t fuel hfuel => ?_⟩
        · by_cases hsilent : Silent (tag, buffer)
          · rw [itemEntry, if_pos hsilent] at he
            cases he
          · rw [itemEntry_selected htype hsilent] at he
            cases he
            exact hwhy
        · refine traverse_skip hnext (.inr ⟨hsel.tagId, _, _, hinner fuel hfuel, .inl ?_⟩)
          rw [herr]
          decide
      · have hfields := (hasFields tag).relabel hrel
        have hrange : first ≤ lfsTagId tag' ∧ lfsTagId tag' < last ↔ first.toNat ≤ j ∧ j < last.toNat := by
          rw [UInt32.le_iff_toNat_le, UInt32.lt_iff_toNat_lt, hfields.tagId]
        have hplain' : PlainItem (tag', buffer) := PlainItem.relabel (x := (tag, buffer)) hx hrel
        have hout : ¬(first.toNat ≤ j ∧ j < last.toNat) →
            PassesNothing rd gpending dir m T first last base s s' items.length :=
          fun hnot τ cb t fuel hfuel => traverse_skip hnext (.inr ⟨hsel.tagId, 0, tag',
            (hinner fuel hfuel).trans (congrArg some hfilter), .inr ⟨rfl, fun hand => hnot (hrange.mp hand)⟩⟩)
        have hin : first.toNat ≤ j ∧ j < last.toNat → ∀ {τ : Type} (cb : UInt32 → Buffer → τ → Int × τ)
            (t : τ) (fuel : Nat), items.length ≤ fuel → _ :=
          fun hand τ cb t fuel hfuel => traverse_step first last (base - first) hnext
            ((mask_selects hsel.lt hT tag).mpr hselected)
            ((if_pos hsel.tagId).trans ((hinner fuel hfuel).trans (congrArg some hfilter)))
            (fun hnot => hnot.2 (hrange.mpr hand)) hplain' cb t
        by_cases hsilent : Silent (tag, buffer)
        · have he : itemEntry (tag, buffer) = none := if_pos hsilent
          have hnone : Compacts typeClass (fun v => decide v.Removed) (((tag, buffer) :: items).filterMap itemEntry)
              kept := compacts_skip h.compacts fun i k v hput => by
            rw [he] at hput
            cases hput
          refine ⟨kept, passedOn, h.skip hnone rfl fun cb t fuel hfuel => ?_⟩
          by_cases hand : first.toNat ≤ j ∧ j < last.toNat
          · rw [hin hand cb t fuel hfuel, passed_silent ((silent_relabel (x := (tag, buffer)) hrel).mpr hsilent)]
            exact if_neg fun hne => hne rfl
          · exact hout hand cb t fuel hfuel
        · have he := itemEntry_selected htype hsilent
          have hkeep : Compacts typeClass (fun v => decide v.Removed) (((tag, buffer) :: items).filterMap itemEntry)
              (.put j (lfsTagType3 tag).toNat (sourceOf (tag, buffer)) :: kept) := by
            rw [List.filterMap_cons_some he]
            exact .keep hsurvive h.compacts
          by_cases hand : first.toNat ≤ j ∧ j < last.toNat
          · have hplace : j - first.toNat + base.toNat < 2 ^ 10 := by omega
            have hshift := relabel_shift hfields hand.1 hplace
            have hloud : ¬Silent (tag', buffer) := fun hs =>
              hsilent ((silent_relabel (x := (tag, buffer)) hrel).mp hs)
            have hone : passed (base - first) [(tag', buffer)] = [(tag' + mkTag 0 (base - first) 0, buffer)] :=
              passed_loud hloud _ []
            refine ⟨_, _, h.one hkeep ⟨hselected, hand⟩ (itemEntry_relabel he (hrel.trans hshift))
              fun cb t fuel hfuel => ?_⟩
            rw [hin hand cb t fuel hfuel, hone, eachTag_one]
          · refine ⟨_, passedOn, h.skip hkeep ?_ (hout hand)⟩
            exact List.filterMap_cons_none (if_neg fun hnot => hand hnot.2)
    · obtain ⟨kept, h⟩ := h.unselected hnext hsel.lt hT hselected
      exact ⟨kept, passedOn, h⟩

end Run

/-! ## The content of a directory -/

section Content

variable {c : LfsConfig} {dev : Device UInt8} {gpending : Gstate} {dir : Mdir} {rs : List Record}
  {items passedOn : List (UInt32 × Buffer)} {first last base : UInt32}

def Source.value (dev : Device UInt8) (v : Source) : Value :=
  ⟨v.size, if v.Removed then [] else
    match v.buffer with
    | .mem data => data.take v.size
    | .disk block off => dev.read block.toNat off v.size
    | _ => []⟩

def contents (dev : Device UInt8) (items : List (UInt32 × Buffer)) : List (Edit Nat Value) :=
  (items.filterMap itemEntry).map (Edit.map (Source.value dev))

theorem contents_append (dev : Device UInt8) (items items' : List (UInt32 × Buffer)) :
    contents dev (items ++ items') = contents dev items ++ contents dev items' := by
  rw [contents, List.filterMap_append, List.map_append]
  rfl

/-- A record that is not for the traversal alone. -/
structure Record.Stored (r : Record) : Prop where
  proper : ProperTag r.tag
  type_ne : r.type ≠ 0
  notFrom : r.type / 2 ^ 8 ≠ 1

theorem Record.Stored.plain {r : Record} (h : r.Stored) (buffer : Buffer) :
    PlainItem (r.tag ||| 0x80000000, buffer) ∧ ¬Silent (r.tag ||| 0x80000000, buffer) := by
  have hfields := or_valid_fields r.fields.toHasFields
  have htype : ∀ {type : UInt32}, lfsTagType3 (r.tag ||| 0x80000000) = type → r.type = type.toNat := by
    intro type heq
    rw [← heq, hfields.type3]
  have hne := h.type_ne
  have hfrom := h.notFrom
  refine ⟨⟨?_, fun heq => ?_, fun heq => ?_⟩, ?_⟩
  · intro hsplice
    rw [hfields.type3] at hsplice ⊢
    rw [hfields.tagSize]
    exact h.proper hsplice
  · have := htype heq
    exact hfrom (by rw [this]; rfl)
  · have := htype heq
    exact absurd (by rw [this]; rfl) hfrom
  · rintro (heq | heq)
    · exact hne (htype heq)
    · have := htype heq
      exact hfrom (by rw [this]; rfl)

theorem Record.Stored.itemEntry {r : Record} (h : r.Stored) (buffer : Buffer) :
    itemEntry (r.tag ||| 0x80000000, buffer) = tagEntry r.tag (sourceOf (r.tag ||| 0x80000000, buffer)) := by
  have hfields := or_valid_fields r.fields.toHasFields
  rw [LfsTool.itemEntry, if_neg (h.plain buffer).2, tagEntry, hfields.type3, hfields.tagId]
  rfl

theorem contents_disk {block : UInt32} {ptag : UInt32} {off : Nat}
    (hholds : Holds dev block.toNat off (encode ptag rs)) (hstored : ∀ r ∈ rs, r.Stored) :
    contents dev (diskItems block off rs) = logOf rs := by
  induction rs generalizing off ptag with
  | nil => rfl
  | cons r rs ih =>
    have hr := hstored r List.mem_cons_self
    have hlen := r.length
    rw [encode, holds_append, holds_append, List.length_append, be32_length] at hholds
    obtain ⟨⟨-, hdata⟩, hrest⟩ := hholds
    rw [show 4 + r.data.length = (lfsTagDsize r.tag).toNat by omega] at hrest
    have hih := ih hrest fun r hr => hstored r (List.mem_cons_of_mem _ hr)
    have hvalue : (sourceOf (r.tag ||| 0x80000000, .disk block (off + 4))).value dev = r.value := by
      have hsize : (lfsTagSize (r.tag ||| 0x80000000)).toNat = r.size :=
        (or_valid_fields r.fields.toHasFields).tagSize
      have hdlen := r.length_eq
      simp only [Source.value, sourceOf, hsize, Record.value]
      congr 1
      by_cases hremoved : r.value.Removed
      · rw [if_pos hremoved] at hdlen
        have hsource : Source.Removed ⟨!lfsTagIsvalid (r.tag ||| 0x80000000), r.size, .disk block (off + 4)⟩ :=
          hremoved
        rw [if_pos hsource, List.length_eq_zero_iff.mp hdlen]
      · rw [if_neg hremoved] at hdlen
        have hsource : ¬Source.Removed ⟨!lfsTagIsvalid (r.tag ||| 0x80000000), r.size, .disk block (off + 4)⟩ :=
          hremoved
        rw [if_neg hsource, ← hdlen]
        exact hdata
    have hentry : (LfsTool.itemEntry (r.tag ||| 0x80000000, .disk block (off + 4))).map
        (Edit.map (Source.value dev)) = r.entry := by
      rw [hr.itemEntry, tagEntry_map, hvalue]
      rfl
    rw [diskItems, logOf, ← List.singleton_append, contents_append, hih, ← List.singleton_append (l := rs),
      List.filterMap_append]
    congr 1
    rw [contents, List.filterMap_cons, List.filterMap_cons, ← hentry]
    cases LfsTool.itemEntry (r.tag ||| 0x80000000, .disk block (off + 4)) <;> rfl

theorem count_disk {block : UInt32} {off : Nat} (hstored : ∀ r ∈ rs, r.Stored) (n : Nat × Bool) :
    (diskItems block off rs).foldlM itemGrow n = (logOf rs).foldlM (grow 0x3ff) n := by
  induction rs generalizing off n with
  | nil => rfl
  | cons r rs ih =>
    have hr := hstored r List.mem_cons_self
    have hitem := hr.itemEntry (.disk block (off + 4))
    have hentry := tagEntry_map (fun _ => r.value) r.tag (sourceOf (r.tag ||| 0x80000000, .disk block (off + 4)))
    have hgrow : itemGrow n (r.tag ||| 0x80000000, .disk block (off + 4)) =
        match LfsTool.itemEntry (r.tag ||| 0x80000000, .disk block (off + 4)) with
        | some e => grow 0x3ff n e
        | none => some n := by
      rw [itemGrow, if_neg (hr.plain _).2, LfsTool.itemEntry, if_neg (hr.plain _).2]
    have hrest : ∀ n, (diskItems block (off + (lfsTagDsize r.tag).toNat) rs).foldlM itemGrow n =
        (logOf rs).foldlM (grow 0x3ff) n := fun n => ih (fun r hr => hstored r (List.mem_cons_of_mem _ hr)) n
    rw [diskItems, List.foldlM_cons, hgrow, hitem]
    cases hsource : tagEntry r.tag (sourceOf (r.tag ||| 0x80000000, .disk block (off + 4))) with
    | none =>
      rw [hsource] at hentry
      rw [logOf, List.filterMap_cons_none (show r.entry = none from hentry.symm)]
      exact hrest n
    | some e =>
      rw [hsource] at hentry
      rw [logOf, List.filterMap_cons_some (show r.entry = some _ from hentry.symm), List.foldlM_cons, grow_map]
      exact congrArg _ (funext hrest)

theorem plain_disk {block : UInt32} {off : Nat} (hstored : ∀ r ∈ rs, r.Stored) :
    ∀ x ∈ diskItems block off rs, PlainItem x := by
  induction rs generalizing off with
  | nil => exact fun x hx => absurd hx List.not_mem_nil
  | cons r rs ih =>
    intro x hx
    rcases List.mem_cons.mp hx with rfl | hx
    · exact ((hstored r List.mem_cons_self).plain _).1
    · exact ih (fun r hr => hstored r (List.mem_cons_of_mem _ hr)) x hx

theorem length_disk (block : UInt32) (off : Nat) (rs : List Record) :
    (diskItems block off rs).length = rs.length := by
  induction rs generalizing off with
  | nil => rfl
  | cons r rs ih => rw [diskItems, List.length_cons, ih, List.length_cons]

theorem length_move (gpending : Gstate) (dir : Mdir) (hasseenmove : Bool) :
    (moveItem gpending dir hasseenmove).length ≤ 1 := by
  unfold moveItem
  split
  · exact Nat.le_refl 1
  · exact Nat.zero_le 1

abbrev valueOf (log : List (Edit Nat Value)) (j type : Nat) : Option (Nat × Value) :=
  lookup typeClass (fun v : Value => decide v.Removed) (typeClass type) (replay log blank j)

/-- A traversal with a mask gives the entries in the range, at their new place, the values they have, whatever
is done with the tags. -/
theorem Describes.traverse (h : Describes c dev dir rs) (hc : Workable c) (first base : UInt32) (hstored : ∀ r ∈ rs, r.Stored)
    {attrs : List Mattr} {hasseenmove : Bool} (hattrs : ∀ x ∈ attrItems attrs ++ moveItem gpending dir hasseenmove, PlainItem x)
    {n n' : Nat × Bool} (hcount : (logOf rs).foldlM (grow 0x3ff) (0, false) = some n)
    (hcount' : (attrItems attrs ++ moveItem gpending dir hasseenmove).foldlM itemGrow n = some n')
    {m T : UInt32} (hsel : Selects m T.toNat) (hT : T.toNat < 2 ^ 11) 
    (hlast : base.toNat + (last.toNat - first.toNat) ≤ 2 ^ 10) :
    ∃ passedOn,
      (∀ {τ : Type} (cb : UInt32 → Buffer → τ → Int × τ) (t : τ) (fuel : Nat),
        rs.length + attrs.length + 1 ≤ fuel →
        lfsDirTraverse (deviceRead c dev) gpending fuel dir ⟨0, LFS_BLOCK_NULL, attrs, hasseenmove⟩
          (mkTag m 0x3ff 0) (mkTag T 0 0) first last (base - first) cb t = some (eachTag cb passedOn t)) ∧
      ∀ j type, first.toNat ≤ j → j < last.toNat →
        (∀ k, typeClass k = typeClass type → selected m T k = true) →
        valueOf (contents dev passedOn) (j - first.toNat + base.toNat) type =
          valueOf (logOf rs ++ contents dev (attrItems attrs ++ moveItem gpending dir hasseenmove)) j type := by
  have hstream := h.streams hc gpending attrs hasseenmove
  have hplain : ∀ x ∈ diskItems dir.pair.1 4 rs ++ (attrItems attrs ++ moveItem gpending dir hasseenmove),
      PlainItem x := by
    intro x hx
    rcases List.mem_append.mp hx with hx | hx
    · exact plain_disk hstored x hx
    · exact hattrs x hx
  have hall : (diskItems dir.pair.1 4 rs ++ (attrItems attrs ++ moveItem gpending dir hasseenmove)).foldlM itemGrow
      (0, false) = some n' := by
    rw [List.foldlM_append, count_disk hstored, hcount]
    exact hcount'
  obtain ⟨kept, passedOn, hpasses⟩ :=
    traverse_selected first hstream hplain hsel hT (Nat.zero_le _) hall hlast
  have hmove := length_move gpending dir hasseenmove
  refine ⟨passedOn, fun cb t fuel hfuel => hpasses.run cb t fuel ?_, fun j type hfirst hj hclass => ?_⟩
  · rw [List.length_append, List.length_append, length_disk, attrItems, List.length_map]
    omega
  · have hentries : passedOn.filterMap itemEntry =
        kept.filterMap (slice (selected m T) first.toNat last.toNat base.toNat) := by
      have hmap := congrArg (List.filterMap id) hpasses.entries
      simpa only [List.filterMap_map, Function.id_comp, Function.comp_def, id, List.filterMap_some] using hmap
    have hlog : logOf rs ++ contents dev (attrItems attrs ++ moveItem gpending dir hasseenmove) =
        contents dev (diskItems dir.pair.1 4 rs ++ (attrItems attrs ++ moveItem gpending dir hasseenmove)) := by
      rw [contents_append dev (diskItems _ _ _), contents_disk h.holds hstored]
    have hmap : ∀ (k : Nat) (values : List (Nat × Source)),
        lookup typeClass (fun v : Value => decide v.Removed) k (values.map fun x => (x.1, x.2.value dev)) =
          (lookup typeClass (fun v : Source => decide v.Removed) k values).map fun x => (x.1, x.2.value dev) :=
      fun k values => lookup_map (Source.value dev) (fun v => rfl) k values
    rw [hlog]
    simp only [valueOf, contents, replay_map, hmap, hentries]
    rw [hpasses.compacts.lookup_slice hfirst hj hclass]

/-- Compacting a directory gives every entry the values it had, whatever is done with the tags. -/
theorem lfsDirTraverse_compact (h : Describes c dev dir rs) (hc : Workable c) (hstored : ∀ r ∈ rs, r.Stored)
    {attrs : List Mattr}
    (hattrs : ∀ x ∈ attrItems attrs ++ moveItem gpending dir false, PlainItem x)
    {n n' : Nat × Bool} (hcount : (logOf rs).foldlM (grow 0x3ff) (0, false) = some n)
    (hcount' : (attrItems attrs ++ moveItem gpending dir false).foldlM itemGrow n = some n')
    (hlast : last.toNat ≤ 2 ^ 10) :
    ∃ passedOn,
      (∀ {τ : Type} (cb : UInt32 → Buffer → τ → Int × τ) (t : τ) (fuel : Nat),
        rs.length + attrs.length + 1 ≤ fuel →
        lfsDirTraverse (deviceRead c dev) gpending fuel dir ⟨0, LFS_BLOCK_NULL, attrs, false⟩
          (mkTag 0x400 0x3ff 0) (mkTag LFS_TYPE_NAME 0 0) first last (0 - first) cb t =
            some (eachTag cb passedOn t)) ∧
      ∀ j type, first.toNat ≤ j → j < last.toNat → type < 2 ^ 10 →
        valueOf (contents dev passedOn) (j - first.toNat) type =
          valueOf (logOf rs ++ contents dev (attrItems attrs ++ moveItem gpending dir false)) j type := by
  have hsel : Selects 0x400 LFS_TYPE_NAME.toNat := selects_of (by decide) (by decide) (by decide)
  obtain ⟨passedOn, hrun, hvalues⟩ := h.traverse hc first 0 hstored hattrs hcount hcount' hsel (by decide)
    (show 0 + (last.toNat - first.toNat) ≤ 2 ^ 10 by omega)
  refine ⟨passedOn, hrun, fun j type hfirst hj htype => hvalues j type hfirst hj fun k hk => ?_⟩
  have hlt : k < 2 ^ 10 := by
    unfold typeClass at hk
    split at hk <;> split at hk <;> omega
  rw [selected, decide_eq_true_eq]
  refine (upper_and 10 1 k).trans ?_
  rw [Nat.div_eq_of_lt hlt]
  rfl

theorem twoFiles_stored : ∀ r ∈ twoFiles, r.Stored := by
  have hproper := twoFiles_describes.proper
  intro r hr
  refine ⟨hproper r hr, ?_, ?_⟩
  · revert r
    decide
  · revert r
    decide

/-- Two files are compacted while the first one is removed, and the second one has its data in its place. -/
theorem lfsDirTraverse_compact_twoFiles :
    ∃ passedOn,
      (∀ {τ : Type} (cb : UInt32 → Buffer → τ → Int × τ) (t : τ) (fuel : Nat), 9 ≤ fuel →
        lfsDirTraverse (deviceRead eightBlocks twoFilesDevice) ⟨0, (0, 0)⟩ fuel twoFilesDir
          ⟨0, LFS_BLOCK_NULL, [⟨mkTag LFS_TYPE_DELETE 0 0, .null⟩], false⟩ (mkTag 0x400 0x3ff 0)
          (mkTag LFS_TYPE_NAME 0 0) 0 1 (0 - 0) cb t = some (eachTag cb passedOn t)) ∧
      valueOf (contents twoFilesDevice passedOn) 0 0x201 = some (0x201, ⟨2, [3, 4]⟩) := by
  have hplain : ∀ x ∈ attrItems [⟨mkTag LFS_TYPE_DELETE 0 0, .null⟩] ++
      moveItem ⟨0, (0, 0)⟩ twoFilesDir false, PlainItem x := by
    intro x hx
    obtain rfl := List.mem_singleton.mp (show x ∈ [(mkTag LFS_TYPE_DELETE 0 0, Buffer.null)] from hx)
    refine ⟨?_, by decide, fun h => absurd h (by decide)⟩
    unfold ProperTag
    decide
  have hcount : (logOf twoFiles).foldlM (grow 0x3ff) (0, false) = some (2, true) := by decide
  obtain ⟨passedOn, hrun, hvalues⟩ := @lfsDirTraverse_compact _ _ ⟨0, (0, 0)⟩ _ _ 0 1 twoFiles_describes
    eightBlocks_workable twoFiles_stored _ hplain _ (1, true) hcount (by decide) (by decide)
  refine ⟨passedOn, hrun, ?_⟩
  exact (hvalues 0 0x201 (by decide) (by decide) (by decide)).trans rfl

/-- Moving an entry passes on its structure and its user attributes, for the entry it becomes. -/
theorem lfsDirTraverse_move (h : Describes c dev dir rs) (hc : Workable c) (hstored : ∀ r ∈ rs, r.Stored) {n : Nat × Bool}
    (hcount : (logOf rs).foldlM (grow 0x3ff) (0, false) = some n) {fromid toid : UInt32}
    (hfrom : fromid.toNat < 2 ^ 10) (hto : toid.toNat < 2 ^ 10) :
    ∃ passedOn,
      (∀ {τ : Type} (cb : UInt32 → Buffer → τ → Int × τ) (t : τ) (fuel : Nat), rs.length + 1 ≤ fuel →
        lfsDirTraverse (deviceRead c dev) gpending fuel dir ⟨0, LFS_BLOCK_NULL, [], true⟩ (mkTag 0x600 0x3ff 0)
          (mkTag LFS_TYPE_STRUCT 0 0) fromid (fromid + 1) (toid - fromid) cb t = some (eachTag cb passedOn t)) ∧
      ∀ type, 2 ^ 9 ≤ type → type < 2 ^ 10 →
        valueOf (contents dev passedOn) toid.toNat type = valueOf (logOf rs) fromid.toNat type := by
  have hsel : Selects 0x600 LFS_TYPE_STRUCT.toNat := selects_of (by decide) (by decide) (by decide)
  have hsucc : (fromid + 1).toNat = fromid.toNat + 1 := by
    rw [UInt32.toNat_add]
    show (_ + 1) % 2 ^ 32 = _
    omega
  have hnone : attrItems [] ++ moveItem gpending dir true = [] := by
    simp [attrItems, moveItem]
  have hplain : ∀ x ∈ attrItems [] ++ moveItem gpending dir true, PlainItem x := by
    simp [hnone]
  have hcount' : (attrItems [] ++ moveItem gpending dir true).foldlM itemGrow n = some n := by
    rw [hnone]
    rfl
  have hlast : toid.toNat + ((fromid + 1).toNat - fromid.toNat) ≤ 2 ^ 10 := by omega
  obtain ⟨passedOn, hrun, hvalues⟩ :=
    h.traverse hc fromid toid hstored hplain hcount hcount' hsel (by decide) hlast
  refine ⟨passedOn, fun cb t fuel hfuel => hrun cb t fuel hfuel, fun type hlow hhigh => ?_⟩
  have hvalue := hvalues fromid.toNat type (Nat.le_refl _) (by omega) fun k hk => ?_
  · rw [hnone] at hvalue
    simpa [contents] using hvalue
  · have hk' : 2 ^ 9 ≤ k ∧ k < 2 ^ 10 := by
      unfold typeClass at hk
      split at hk <;> split at hk <;> omega
    rw [selected, decide_eq_true_eq]
    refine (upper_and 9 3 k).trans ?_
    rw [show k / 2 ^ 9 = 1 by omega]
    rfl

theorem lfsDirTraverse_move_twoFiles :
    ∃ passedOn,
      (∀ {τ : Type} (cb : UInt32 → Buffer → τ → Int × τ) (t : τ) (fuel : Nat), 8 ≤ fuel →
        lfsDirTraverse (deviceRead eightBlocks twoFilesDevice) ⟨0, (0, 0)⟩ fuel twoFilesDir
          ⟨0, LFS_BLOCK_NULL, [], true⟩ (mkTag 0x600 0x3ff 0) (mkTag LFS_TYPE_STRUCT 0 0) 1 (1 + 1) (0 - 1) cb t =
            some (eachTag cb passedOn t)) ∧
      valueOf (contents twoFilesDevice passedOn) 0 0x201 = some (0x201, ⟨2, [3, 4]⟩) := by
  have hfrom : (1 : UInt32).toNat < 2 ^ 10 := by decide
  have hto : (0 : UInt32).toNat < 2 ^ 10 := by decide
  have hcount : (logOf twoFiles).foldlM (grow 0x3ff) (0, false) = some (2, true) := by decide
  obtain ⟨passedOn, hrun, hvalues⟩ := lfsDirTraverse_move twoFiles_describes eightBlocks_workable twoFiles_stored hcount hfrom hto
  refine ⟨passedOn, hrun, ?_⟩
  exact (hvalues 0x201 (by decide) (by decide)).trans rfl

end Content

end LfsTool
