import LfsTool.TreeWalk

/-!
# LfsTool.Transfer

Every run of the walk between two back ends that show trees, followed step by step.

* `CopyRun.tree`: the copy loop. The target file holds the source up to the position reached,
  whatever is in the rest of the buffer.
* `FileRun.tree`, `WalkRun.tree`: `process_file` and `traversal`.
-/

namespace LfsTool

open PathSyntax WalkState TreeFs

section Transfer

variable {σ φ δ φ' δ' : Type} {full durable : Prop} {libc : Libc σ} {vfs : Vfs σ φ δ}
  {target : Vfs σ φ' δ'} {S : TreeLens σ φ δ} {T : TreeLens σ φ' δ'} {src : Tree}

/-! ## The copy loop -/

/-- The state of a copy of the source file `p` with content `c`: `inn` has been read up to `read`,
and the target has the source up to `pos`. -/
structure Copying (S : TreeLens σ φ δ) (T : TreeLens σ φ' δ') (src : Tree) (inn : φ) (out : φ')
    (p : Path) (c : List UInt8) (read pos : Nat) (w : σ) : Prop where
  tree : (S.view w).tree = src
  inn : (S.view w).file (S.file inn) = some ⟨S.root ++ p, read, false⟩
  out : (T.view w).file (T.file out) = some ⟨T.root ++ p, pos, true⟩
  content : (T.view w).tree (T.root ++ p) = some (.file (c.take pos))
  le : pos ≤ c.length

theorem take_append_next (c : List UInt8) {pos n m : Nat} (hpos : pos ≤ c.length) (hm : m ≤ n) :
    (c.take pos).take pos ++ ((c.drop pos).take n).take m ++ (c.take pos).drop (pos + m) =
      c.take (pos + m) := by
  have h₁ : (c.take pos).take pos = c.take pos := by
    rw [List.take_take, Nat.min_self]
  have h₂ : (c.take pos).drop (pos + m) = [] := by
    rw [List.drop_eq_nil_iff, List.length_take]; omega
  have h₃ : ((c.drop pos).take n).take m = (c.drop pos).take m := by
    rw [List.take_take, Nat.min_eq_left hm]
  rw [h₁, h₂, h₃, List.append_nil, List.take_add]

/-- One read of the loop: an error, or the next `m` bytes at the start of the buffer. -/
theorem Copying.readBuffer (env : TreeEnv full durable libc vfs target S T) {inn : φ} {out : φ'}
    {p : Path} {c : List UInt8} (hc : src (S.root ++ p) = some (.file c)) {s s₁ : WalkState σ}
    {rb : Int} {pos : Nat} (hr : s.readBuffer vfs (some inn) = (rb, s₁))
    (h : Copying S T src inn out p c pos pos s.sys) :
    T.view s₁.sys = T.view s.sys ∧ (S.view s₁.sys).dir = (S.view s.sys).dir ∧
      (rb < 0 ∧ Copying S T src inn out p c pos pos s₁.sys ∨
        ∃ m : Nat, rb = m ∧ s₁.mBuffer.take m = (c.drop pos).take m ∧ pos + m ≤ c.length ∧
          m ≤ bufferSize ∧ (full → m < bufferSize → c.length ≤ pos + m) ∧
          Copying S T src inn out p c (pos + m) pos s₁.sys) := by
  obtain ⟨⟨o, hread, hback⟩, hT⟩ := env.source.read (readBuffer_sys hr)
  generalize hv : S.view s₁.sys = v at hread
  cases hread with
  | fail =>
    cases hback with
    | error hneg =>
      refine ⟨hT, rfl, .inl ⟨hneg, ?_⟩⟩
      exact ⟨by rw [hv]; exact h.tree, by rw [hv]; exact h.inn, by rw [hT]; exact h.out,
        by rw [hT]; exact h.content, h.le⟩
  | @done cur c' m _ hcur hget hle hlen _ hshort htree hfile hdir =>
    have hcur' := hcur.symm.trans h.inn
    cases hcur'
    have hc' : c' = c := by
      rw [h.tree, hc] at hget
      simpa using hget.symm
    subst hc'
    simp only at hlen hshort hfile hback
    have hlen' : ((c'.drop pos).take m).length = m := by
      rw [List.length_take, List.length_drop]; omega
    have hbound : pos + m ≤ c'.length := by have := h.le; omega
    generalize hbuf : s₁.mBuffer = buf at hback
    generalize hdata : (c'.drop pos).take m = data at hback hlen'
    cases hback with
    | bytes =>
      refine ⟨hT, hdir, .inr ⟨m, by rw [hlen'], ?_, hbound, hle, hshort, ?_⟩⟩
      · rw [List.take_append_of_le_length (by omega), ← hdata, List.take_take, Nat.min_self]
      · exact ⟨by rw [hv, htree]; exact h.tree, by rw [hv]; exact hfile.at_key,
          by rw [hT]; exact h.out, by rw [hT]; exact h.content, h.le⟩

/-- One write of the loop stores some of the bytes it is given after those already there, and all
of them when it returns their number. -/
theorem Copying.writeBuffer (env : TreeEnv full durable libc vfs target S T) {inn : φ} {out : φ'}
    {p : Path} {c : List UInt8} {s s₁ : WalkState σ} {wb : Int} {read pos m : Nat}
    (hw : s.writeBuffer target (some out) (m : Int) = (wb, s₁))
    (hbuf : s.mBuffer.take m = (c.drop pos).take m) (hm : pos + m ≤ c.length)
    (h : Copying S T src inn out p c read pos s.sys) :
    S.view s₁.sys = S.view s.sys ∧
      (∀ q, q ≠ T.root ++ p → (T.view s₁.sys).tree q = (T.view s.sys).tree q) ∧
      ∃ pos', Copying S T src inn out p c read pos' s₁.sys ∧ (wb = m → pos' = pos + m) := by
  obtain ⟨⟨o, hwrite, hback⟩, hS⟩ := env.target.write (writeBuffer_sys hw)
  rw [Int.toNat_natCast, hbuf] at hwrite
  generalize hv : T.view s₁.sys = v at hwrite
  cases hwrite with
  | fail =>
    cases hback with
    | error hneg =>
      refine ⟨hS, fun _ _ => rfl, pos, ?_, by omega⟩
      exact ⟨by rw [hS]; exact h.tree, by rw [hS]; exact h.inn, by rw [hv]; exact h.out,
        by rw [hv]; exact h.content, h.le⟩
  | @done cur c' k _ hcur hget hle htree hfile hdir =>
    have hcur' := hcur.symm.trans h.out
    cases hcur'
    have hc' : c' = c.take pos := by
      have := hget.symm.trans h.content
      simpa using this
    subst hc'
    have hkm : k ≤ m := by
      rw [List.length_take] at hle; omega
    cases hback with
    | stored =>
      refine ⟨hS, ?_, pos + k, ?_, by omega⟩
      · intro q hq
        rw [htree, Tree.set_of_ne _ _ hq]
      · refine ⟨by rw [hS]; exact h.tree, by rw [hS]; exact h.inn, by rw [hv]; exact hfile.at_key,
          ?_, by omega⟩
        rw [hv, htree, Tree.set_self, take_append_next c h.le hkm]

/-- The copy loop, by induction on the run; the invariant is `Copying` with both positions equal. -/
theorem CopyRun.tree (env : TreeEnv full durable libc vfs target S T) {inn : φ} {out : φ'} {p : Path}
    {c : List UInt8} (hc : src (S.root ++ p) = some (.file c)) {s s' : WalkState σ} {r : Int}
    (h : CopyRun vfs target (some inn) (some out) s r s') :
    ∀ pos, Copying S T src inn out p c pos pos s.sys →
      ∃ read' pos', Copying S T src inn out p c read' pos' s'.sys ∧
        (S.view s'.sys).dir = (S.view s.sys).dir ∧
        (∀ q, q ≠ T.root ++ p → (T.view s'.sys).tree q = (T.view s.sys).tree q) ∧
        (r = 0 → full → c.take pos' = c) := by
  induction h with
  | readFail hr hneg =>
    intro pos hcp
    obtain ⟨hT, hdir, ⟨_, hcp₁⟩ | ⟨m, hm, _⟩⟩ := hcp.readBuffer env hc hr
    · exact ⟨pos, pos, hcp₁, hdir, by rw [hT]; exact fun _ _ => rfl, by omega⟩
    · omega
  | writeFail hr hrb hw hne =>
    intro pos hcp
    obtain ⟨hT, hdir, ⟨hneg, _⟩ | ⟨m, rfl, hbuf, hm, _, _, hcp₁⟩⟩ := hcp.readBuffer env hc hr
    · omega
    · obtain ⟨hS, hframe, pos', hcp₂, _⟩ := hcp₁.writeBuffer env hw hbuf hm
      exact ⟨pos + m, pos', hcp₂, by rw [hS, hdir],
        fun q hq => by rw [hframe q hq, hT], by omega⟩
  | last hr hrb hw hshort =>
    intro pos hcp
    obtain ⟨hT, hdir, ⟨hneg, _⟩ | ⟨m, rfl, hbuf, hm, hle, hend, hcp₁⟩⟩ := hcp.readBuffer env hc hr
    · omega
    · obtain ⟨hS, hframe, pos', hcp₂, hall⟩ := hcp₁.writeBuffer env hw hbuf hm
      refine ⟨pos + m, pos', hcp₂, by rw [hS, hdir], fun q hq => by rw [hframe q hq, hT], ?_⟩
      -- a read that fell short reached the end of the file
      intro _ hfull
      rw [hall rfl]
      exact List.take_of_length_le (hend hfull (by omega))
  | more hr hrb hw hall _ ih =>
    intro pos hcp
    obtain ⟨hT, hdir, ⟨hneg, _⟩ | ⟨m, rfl, hbuf, hm, _, _, hcp₁⟩⟩ := hcp.readBuffer env hc hr
    · omega
    · obtain ⟨hS, hframe, pos', hcp₂, hpos⟩ := hcp₁.writeBuffer env hw hbuf hm
      obtain rfl := hpos rfl
      obtain ⟨read', pos'', hcp₃, hdir₃, hframe₃, hdone⟩ := ih _ hcp₂
      exact ⟨read', pos'', hcp₃, by rw [hdir₃, hS, hdir],
        fun q hq => by rw [hframe₃ q hq, hframe q hq, hT], hdone⟩

/-! ## `process_file` -/

theorem Copying.closeTarget (env : TreeEnv full durable libc vfs target S T) {out : φ'} {p : Path}
    {c : List UInt8} {pos : Nat} (s : WalkState σ)
    (hout : (T.view s.sys).file (T.file out) = some ⟨T.root ++ p, pos, true⟩)
    (hcontent : (T.view s.sys).tree (T.root ++ p) = some (.file (c.take pos))) :
    S.view (s.closeFile target (some out)).2.sys = S.view s.sys ∧
      (∀ q, q ≠ T.root ++ p →
        (T.view (s.closeFile target (some out)).2.sys).tree q = (T.view s.sys).tree q) ∧
      ∃ pos', (T.view (s.closeFile target (some out)).2.sys).tree (T.root ++ p) =
        some (.file (c.take pos')) ∧ (durable → pos' = pos) := by
  obtain ⟨hclose, hS⟩ := env.target.close (closeFile_sys target (some out) s)
  refine ⟨hS, ?_⟩
  generalize T.view (s.closeFile target (some out)).2.sys = v at hclose
  generalize decide ((s.closeFile target (some out)).1 = 0) = ok at hclose
  cases hclose with
  | done htree _ _ => exact ⟨by rw [htree]; exact fun _ _ => rfl, pos, by rw [htree, hcontent], fun _ => rfl⟩
  | @lost cur c' m _ hdur hcur _ hget htree _ _ =>
    have hcur' := hcur.symm.trans hout
    cases hcur'
    have hc' : c' = c.take pos := by
      have := hget.symm.trans hcontent
      simpa using this
    refine ⟨fun q hq => by rw [htree, Tree.set_of_ne _ _ hq], min m pos, ?_,
      fun h => absurd h hdur⟩
    rw [htree, Tree.set_self, hc', List.take_take]

theorem Copying.start (env : TreeEnv full durable libc vfs target S T) {path : CString} {p : Path}
    {c : List UInt8} (hn : Names path p) {s s₁ s₂ : WalkState σ} {out : φ'} {inn : φ} (hsrc : (S.view s.sys).tree = src)
    (ho : s.openFile target path (O_CREAT ||| O_TRUNC ||| O_WRONLY) = (some out, s₁))
    (hi : s₁.openFile vfs path O_RDONLY = (some inn, s₂)) :
    Copying S T src inn out p c 0 0 s₂.sys ∧ (S.view s₂.sys).dir = (S.view s.sys).dir ∧
      (∀ q, q ≠ T.root ++ p → (T.view s₂.sys).tree q = (T.view s.sys).tree q) ∧
      ParentDir (T.view s.sys).tree (T.root ++ p) := by
  obtain ⟨hopen, hS⟩ := env.target.open_ hn (openFile_sys ho)
  obtain ⟨hread, hT⟩ := env.source.open_ hn (openFile_sys hi)
  rw [Option.map_some] at hread hopen
  generalize hv : T.view s₁.sys = v at hopen
  generalize hu : S.view s₂.sys = u at hread
  cases hopen with
  | opened _ hparent _ htree hfile _ =>
    cases hread with
    | opened _ hget hutree hufile hudir =>
      refine ⟨⟨?_, ?_, ?_, ?_, Nat.zero_le _⟩, ?_, ?_, hparent⟩
      · rw [hu, hutree, hS]; exact hsrc
      · rw [hu]; exact hufile.at_key
      · rw [hT, hv]; exact hfile.at_key
      · rw [hT, hv, htree, Tree.set_self, List.take_zero]
      · rw [hudir, hS]
      · intro q hq
        rw [hT, hv, htree, Tree.set_of_ne _ _ hq]

theorem Copying.finish (env : TreeEnv full durable libc vfs target S T) {inn : φ} {out : φ'}
    {p : Path} {c : List UInt8} {read pos : Nat} {s : WalkState σ}
    (h : Copying S T src inn out p c read pos s.sys) {s' : WalkState σ}
    (hs' : s' = ((s.closeFile vfs (some inn)).2.closeFile target (some out)).2) :
    (S.view s'.sys).tree = src ∧ (S.view s'.sys).dir = (S.view s.sys).dir ∧
      (∀ q, q ≠ T.root ++ p → (T.view s'.sys).tree q = (T.view s.sys).tree q) ∧
      ∃ pos', (T.view s'.sys).tree (T.root ++ p) = some (.file (c.take pos')) ∧
        (durable → pos' = pos) := by
  subst hs'
  obtain ⟨⟨durable', hclose⟩, hT⟩ := env.source.close (closeFile_sys vfs (some inn) s)
  have hS : (S.view (s.closeFile vfs (some inn)).2.sys).tree = src ∧
      (S.view (s.closeFile vfs (some inn)).2.sys).dir = (S.view s.sys).dir := by
    generalize S.view (s.closeFile vfs (some inn)).2.sys = x at hclose
    generalize decide ((s.closeFile vfs (some inn)).1 = 0) = ok at hclose
    cases hclose with
    | done htree _ hdir => exact ⟨by rw [htree]; exact h.tree, hdir⟩
    | lost _ hcur hw _ _ _ _ => rw [h.inn] at hcur; cases hcur; cases hw
  obtain ⟨hS', hframe, hcontent⟩ := Copying.closeTarget env (c := c)
    (s.closeFile vfs (some inn)).2 (by rw [hT]; exact h.out) (by rw [hT]; exact h.content)
  exact ⟨by rw [hS']; exact hS.1, by rw [hS', hS.2], fun q hq => by rw [hframe q hq, hT], hcontent⟩

/-- What a run does to the two trees: the source and the directories being read stay, the target
changes only in `scope` and as allowed there, and a run that returns 0 has done `scope`. -/
structure Post (full durable : Prop) (S : TreeLens σ φ δ) (T : TreeLens σ φ' δ') (src : Tree)
    (scope : Path → Prop) (own : Nat → Prop) (w w' : σ) (r : Int) : Prop where
  tree : (S.view w').tree = src
  dirs : ∀ k, ¬own k → (S.view w).dir k ≠ none → (S.view w').dir k = (S.view w).dir k
  changes : Changes src S.root T.root scope (T.view w).tree (T.view w').tree
  done : r = 0 → full → durable → Done src S.root T.root scope (T.view w').tree

theorem Post.failed {scope : Path → Prop} {own : Nat → Prop} {w w' : σ}
    (htree : (S.view w').tree = src)
    (hdirs : ∀ k, ¬own k → (S.view w).dir k ≠ none → (S.view w').dir k = (S.view w).dir k)
    (hT : (T.view w').tree = (T.view w).tree) : Post full durable S T src scope own w w' (-1) :=
  ⟨htree, hdirs, by rw [hT]; exact .refl, by simp⟩

theorem FileRun.tree (env : TreeEnv full durable libc vfs target S T) {path : CString} {p : Path}
    {c : List UInt8} (hn : Names path p) (hc : src (S.root ++ p) = some (.file c))
    {s s' : WalkState σ} {r : Int} (hsrc : (S.view s.sys).tree = src)
    (h : FileRun vfs target path s r s') :
    Post full durable S T src (· = p) (fun _ => False) s.sys s'.sys r ∧
      (r = 0 → ParentDir (T.view s.sys).tree (T.root ++ p)) := by
  cases h with
  | outFail ho =>
    obtain ⟨hopen, hS⟩ := env.target.open_ hn (openFile_sys ho)
    rcases hopen.failed with hT | hT
    · exact ⟨.failed (by rw [hS]; exact hsrc) (fun k _ _ => by rw [hS]) hT, by simp⟩
    · have hcontent : (T.view s'.sys).tree (T.root ++ p) = some (.file (c.take 0)) := by
        rw [hT, Tree.set_self, List.take_zero]
      exact ⟨⟨by rw [hS]; exact hsrc, fun k _ _ => by rw [hS],
        .start hc hcontent fun q hq => by rw [hT, Tree.set_of_ne _ _ hq], by simp⟩, by simp⟩
  | @inFail s₁ s₂ out ho hi =>
    obtain ⟨hopen, hS⟩ := env.target.open_ hn (openFile_sys ho)
    obtain ⟨hread, hT⟩ := env.source.open_ hn (openFile_sys hi)
    rw [Option.map_some] at hopen
    have hS₂ := hread.failed
    generalize hv : T.view s₁.sys = v at hopen
    cases hopen with
    | opened _ hparent _ htree hfile _ =>
      obtain ⟨hS₃, hframe, pos', hcontent, _⟩ := Copying.closeTarget env (c := c) s₂
        (by rw [hT, hv]; exact hfile.at_key) (by rw [hT, hv, htree, Tree.set_self, List.take_zero])
      exact ⟨⟨by rw [hS₃, hS₂, hS]; exact hsrc, fun k _ _ => by rw [hS₃, hS₂, hS],
        .start hc hcontent fun q hq => by rw [hframe q hq, hT, hv, htree, Tree.set_of_ne _ _ hq],
        by simp⟩, by simp⟩
  | @copied s₁ s₂ s₃ out inn _ ho hi hcopy =>
    obtain ⟨hcp, hdir₂, hframe₂, hparent⟩ := Copying.start (c := c) env hn hsrc ho hi
    obtain ⟨read', pos', hcp', hdir₃, hframe₃, hall⟩ := hcopy.tree env hc 0 hcp
    obtain ⟨htree, hdir, hframe, pos'', hcontent, hdur⟩ := hcp'.finish env rfl
    refine ⟨⟨htree, fun k _ _ => by rw [hdir, hdir₃, hdir₂], ?_, ?_⟩, fun _ => hparent⟩
    · exact .start hc hcontent fun q hq => by rw [hframe q hq, hframe₃ q hq, hframe₂ q hq]
    · rintro h0 hfull hdu q rfl
      rw [hcontent, hdur hdu, hall h0 hfull, hc]
      exact ⟨fun c' hc' => hc', by simp⟩

/-! ## `traversal` -/

/-- Every entry of the tree below `root` has a proper name and lies in a directory. -/
def WellFormed (t : Tree) (root : Path) : Prop :=
  ∀ p n, t (root ++ p ++ [n]) ≠ none → Proper n ∧ t (root ++ p) = some .dir

theorem WellFormed.of_append {t : Tree} {root : Path} (h : WellFormed t root) {p : Path} :
    ∀ {q : Path}, t (root ++ p ++ q) ≠ none → t (root ++ p) ≠ none := by
  intro q
  induction hlen : q.length generalizing q with
  | zero => intro hq; simpa [List.length_eq_zero_iff.mp hlen] using hq
  | succ k ih =>
    intro hq
    have hne : q ≠ [] := by rintro rfl; simp at hlen
    rw [← List.dropLast_concat_getLast hne] at hq
    have hdir := (h (p ++ q.dropLast) _ (by simpa using hq)).2
    refine ih (q := q.dropLast) (by rw [List.length_dropLast, hlen]; rfl) ?_
    rw [List.append_assoc, hdir]
    simp

theorem WellFormed.listed {t : Tree} {root : Path} (h : WellFormed t root) {p : Path}
    {names : List Name} (hlist : Listing t (root ++ p) names) :
    ∀ n ∈ names, IsDots n ∨ Proper n := by
  intro n hmem
  by_cases hd : IsDots n
  · exact .inl hd
  · exact .inr (h p n ((hlist.mem n hd).mp hmem)).1

def Under (p : Path) (rest : List Name) (q : Path) : Prop :=
  ∃ n ∈ rest, ¬IsDots n ∧ p ++ [n] <+: q

theorem not_under_self (p : Path) (rest : List Name) : ¬Under p rest p := by
  rintro ⟨n, _, _, hpre⟩
  have := hpre.length_le
  simp only [List.length_append, List.length_singleton] at this
  omega

theorem not_under_of_nodup {p : Path} {n : Name} {rest : List Name}
    (hnodup : ((n :: rest).filter (¬IsDots ·)).Nodup) {q : Path}
    (hq : ¬IsDots n ∧ p ++ [n] <+: q) : ¬Under p rest q := by
  rintro ⟨m, hm, hdots, hpre⟩
  obtain ⟨hnd, a, rfl⟩ := hq
  obtain ⟨b, hb⟩ := hpre
  have hmn : m = n := by
    have := hb
    simp only [List.append_assoc, List.singleton_append, List.append_cancel_left_eq,
      List.cons.injEq] at this
    exact this.1
  subst hmn
  rw [List.filter_cons_of_pos (by simpa using hnd), List.nodup_cons] at hnodup
  exact hnodup.1 (List.mem_filter.mpr ⟨hm, by simpa using hnd⟩)

def WalkPost (full durable : Prop) (S : TreeLens σ φ δ) (T : TreeLens σ φ' δ') (src : Tree)
    (s s' : WalkState σ) (r : Int) : Task δ → Prop
  | .tree dir => ∀ p, Names dir p → src (S.root ++ p) = some .dir → (S.view s.sys).tree = src →
      Post full durable S T src (p <+: ·) (fun _ => False) s.sys s'.sys r ∧
        (r = 0 → ParentDir (T.view s.sys).tree (T.root ++ p))
  | .entries dir h => ∀ p rest, Names dir p → S.opened h p → (S.view s.sys).tree = src →
      (S.view s.sys).dir (S.dir h) = some ⟨S.root ++ p, rest⟩ →
      (rest.filter (¬IsDots ·)).Nodup →
      (∀ n ∈ rest, IsDots n ∨ Proper n) →
      Post full durable S T src (Under p rest) (· = S.dir h) s.sys s'.sys r ∧
        (r = 0 → (∃ n ∈ rest, ¬IsDots n) → (T.view s.sys).tree (T.root ++ p) = some .dir)
  | .entry path => ∀ p n, Delivered src (S.root ++ p) n s.dirent →
      (Proper n → Names path (p ++ [n])) → (S.view s.sys).tree = src →
      Post full durable S T src (fun q => ¬IsDots n ∧ p ++ [n] <+: q) (fun _ => False) s.sys s'.sys r ∧
        (r = 0 → ¬IsDots n → (T.view s.sys).tree (T.root ++ p) = some .dir)

theorem makeDir_tree (env : TreeEnv full durable libc vfs target S T) {dir : CString} {p : Path}
    (hn : Names dir p) (hdir : src (S.root ++ p) = some .dir) {s s₁ : WalkState σ} {err : Int}
    (hm : s.makeDir target dir = (err, s₁)) :
    S.view s₁.sys = S.view s.sys ∧
      Changes src S.root T.root (p <+: ·) (T.view s.sys).tree (T.view s₁.sys).tree ∧
      (err = 0 → ParentDir (T.view s.sys).tree (T.root ++ p) ∧
        (T.view s₁.sys).tree (T.root ++ p) ≠ none) := by
  obtain ⟨hmake, hS⟩ := env.target.mkdir hn (makeDir_sys hm)
  refine ⟨hS, ?_⟩
  generalize T.view s₁.sys = v at hmake
  generalize hok : decide (err = 0) = ok at hmake
  cases hmake with
  | fail => exact ⟨.refl, fun h0 => by simp [h0] at hok⟩
  | existing hparent hne => exact ⟨.refl, fun _ => ⟨hparent, hne⟩⟩
  | made hparent hnone htree _ _ =>
    refine ⟨fun q => ?_, fun _ => ⟨hparent, by rw [htree, Tree.set_self]; simp⟩⟩
    by_cases hq : q = T.root ++ p
    · subst hq
      rw [htree, Tree.set_self, hnone]
      exact .inr ⟨p, rfl, List.prefix_refl p, by rw [hdir]; exact .newDir⟩
    · left
      rw [htree, Tree.set_of_ne _ _ hq]

theorem readDir_tree (env : TreeEnv full durable libc vfs target S T) {h : δ} {p : Path}
    {rest : List Name} (hp : ∀ n ∈ p, Proper n) (hopened : S.opened h p)
    {s s₁ : WalkState σ} {found : Bool} (hsrc : (S.view s.sys).tree = src)
    (hstream : (S.view s.sys).dir (S.dir h) = some ⟨S.root ++ p, rest⟩)
    (hrest : ∀ n ∈ rest, IsDots n ∨ Proper n) (hd : s.readDir vfs (some h) = (found, s₁)) :
    T.view s₁.sys = T.view s.sys ∧ (S.view s₁.sys).tree = src ∧
      (∀ k, k ≠ S.dir h → (S.view s₁.sys).dir k = (S.view s.sys).dir k) ∧
      (found = true → (s₁.dirent.type = .endMark ∧ rest = []) ∨
        ∃ n rest', rest = n :: rest' ∧
          (S.view s₁.sys).dir (S.dir h) = some ⟨S.root ++ p, rest'⟩ ∧
          Delivered src (S.root ++ p) n s₁.dirent) := by
  obtain ⟨⟨o, hread, hback⟩, hT⟩ :=
    env.source.readdir hopened hp hstream hrest (readDir_sys hd)
  rw [hsrc] at hback
  refine ⟨hT, ?_⟩
  generalize S.view s₁.sys = v at hread
  cases hread with
  | fail htree _ hdirs =>
    cases hback with
    | error => exact ⟨by rw [htree, hsrc], hdirs, by simp⟩
  | finished hk htree _ hdirs =>
    cases hback with
    | finished hend =>
      have hnil := hk.symm.trans hstream
      refine ⟨by rw [htree, hsrc], hdirs.elsewhere, fun _ => .inl ⟨hend, ?_⟩⟩
      simp only [Option.some.injEq, TreeFs.Stream.mk.injEq] at hnil
      exact hnil.2.symm
  | @item q n rest' _ hk htree _ hdirs =>
    cases hback with
    | item hdel =>
      have hcons := hk.symm.trans hstream
      simp only [Option.some.injEq, TreeFs.Stream.mk.injEq] at hcons
      obtain ⟨rfl, rfl⟩ := hcons
      exact ⟨by rw [htree, hsrc], hdirs.elsewhere,
        fun _ => .inr ⟨n, rest', rfl, hdirs.at_key, hdel⟩⟩

theorem Delivered.type_ne {t : Tree} {p : Path} {n : Name} {slot : Dirent}
    (h : Delivered t p n slot) : slot.type ≠ .endMark := by
  rcases h.type with ⟨_, hdir⟩ | ⟨_, ⟨_, hfile⟩ | ⟨_, hdir⟩⟩
  · rw [hdir]; simp
  · rw [hfile]; simp
  · rw [hdir]; simp

/-- When the entries of a directory are done and the directory is there, all below it is done. -/
theorem done_tree (hwf : WellFormed src S.root) {p : Path} {names : List Name}
    (hdir : src (S.root ++ p) = some .dir) (hlist : Listing src (S.root ++ p) names) {t : Tree}
    (ht : t (T.root ++ p) ≠ none)
    (hparent : (∃ n ∈ names, ¬IsDots n) → t (T.root ++ p) = some .dir)
    (hdone : Done src S.root T.root (Under p names) t) :
    Done src S.root T.root (p <+: ·) t := by
  rintro q ⟨a, rfl⟩
  cases a with
  | nil =>
    rw [List.append_nil]
    refine ⟨fun c hc => ?_, fun _ => ⟨ht, ?_⟩⟩
    · rw [hdir] at hc; cases hc
    · rintro ⟨n, hdots, hn⟩
      exact hparent ⟨n, (hlist.mem n hdots).mpr hn, hdots⟩
  | cons n a =>
    by_cases hex : src (S.root ++ (p ++ n :: a)) = none
    · rw [hex]; simp
    · have hn : src (S.root ++ p ++ [n]) ≠ none := by
        have := hwf.of_append (p := p ++ [n]) (q := a) (by simpa using hex)
        simpa using this
      have hproper := (hwf p n hn).1
      refine hdone _ ⟨n, (hlist.mem n (not_isDots hproper)).mpr hn, not_isDots hproper, a, ?_⟩
      simp

theorem WellFormed.below_file {t : Tree} {root p : Path} {c : List UInt8} (h : WellFormed t root)
    (hc : t (root ++ p) = some (.file c)) (n : Name) (q : Path) :
    t (root ++ (p ++ n :: q)) = none := by
  by_contra hex
  have hn := h.of_append (p := p ++ [n]) (q := q) (by simpa using hex)
  have hdir := (h p n (by simpa using hn)).2
  rw [hc] at hdir
  cases hdir

theorem done_file (hwf : WellFormed src S.root) {p : Path} {c : List UInt8}
    (hc : src (S.root ++ p) = some (.file c)) {t : Tree} (h : Done src S.root T.root (· = p) t) :
    Done src S.root T.root (p <+: ·) t := by
  rintro q ⟨a, rfl⟩
  cases a with
  | nil => rw [List.append_nil]; exact h p rfl
  | cons n a =>
    rw [hwf.below_file hc]
    simp

/-! ### One step of the walk

For each way a step can go: what `WalkPost` says of the runs inside it, it says of the whole. -/

theorem TreeEnv.source_free (env : TreeEnv full durable libc vfs target S T)
    (path : Option HeapString) (s : WalkState σ) :
    S.view (s.freePath libc path).sys = S.view s.sys :=
  env.source_libc.free _ _

theorem TreeEnv.target_free (env : TreeEnv full durable libc vfs target S T)
    (path : Option HeapString) (s : WalkState σ) :
    T.view (s.freePath libc path).sys = T.view s.sys :=
  env.target_libc.free _ _

theorem WalkPost.mkdirFail (env : TreeEnv full durable libc vfs target S T) {dir : CString}
    {s s₁ : WalkState σ} {err : Int} (hm : s.makeDir target dir = (err, s₁)) :
    WalkPost full durable S T src s (s₁.freePath libc none) (-1) (.tree dir) := by
  intro p hn hdir hsrc
  obtain ⟨hS, hch, _⟩ := makeDir_tree env hn hdir hm
  exact ⟨⟨by rw [env.source_free, hS, hsrc], fun k _ _ => by rw [env.source_free, hS],
    by rw [env.target_free]; exact hch, by simp⟩, by simp⟩

theorem WalkPost.opendirFail (env : TreeEnv full durable libc vfs target S T) {dir : CString}
    {s s₁ s₂ : WalkState σ} {err : Int} (hm : s.makeDir target dir = (err, s₁))
    (ho : s₁.openDir vfs dir = (none, s₂)) :
    WalkPost full durable S T src s (s₂.freePath libc none) (-1) (.tree dir) := by
  intro p hn hdir hsrc
  obtain ⟨hS, hch, _⟩ := makeDir_tree env hn hdir hm
  obtain ⟨hopen, _, hT⟩ := env.source.opendir hn (openDir_sys ho)
  have hS₂ := hopen.failed
  exact ⟨⟨by rw [env.source_free, hS₂, hS, hsrc], fun k _ _ => by rw [env.source_free, hS₂, hS],
    by rw [env.target_free, hT]; exact hch, by simp⟩, by simp⟩

theorem WalkPost.opened (env : TreeEnv full durable libc vfs target S T)
    (hwf : WellFormed src S.root) {dir : CString} {s s₁ s₂ s₃ : WalkState σ} {vfsDir : δ} {r : Int}
    (hm : s.makeDir target dir = (0, s₁)) (ho : s₁.openDir vfs dir = (some vfsDir, s₂))
    (ih : WalkPost full durable S T src s₂ s₃ r (.entries dir vfsDir)) :
    WalkPost full durable S T src s (s₃.closeDir vfs (some vfsDir)).2 r (.tree dir) := by
  intro p hn hdir hsrc
  obtain ⟨hS, hch, hmade⟩ := makeDir_tree env hn hdir hm
  obtain ⟨hparent, hne⟩ := hmade rfl
  obtain ⟨hopen, hopened, hT⟩ := env.source.opendir hn (openDir_sys ho)
  rw [Option.map_some] at hopen
  generalize hv : S.view s₂.sys = v at hopen
  cases hopen with
  | @opened _ names _ hfree _ hlist htree _ hdirs =>
    rw [hS, hsrc] at hlist
    obtain ⟨post, hent⟩ := ih p names hn (hopened _ rfl) (by rw [hv, htree, hS, hsrc])
      (by rw [hv]; exact hdirs.at_key) hlist.nodup (hwf.listed hlist)
    obtain ⟨hclose, hT₄⟩ := env.source.closedir (closeDir_sys vfs (some vfsDir) s₃)
    rw [hT] at hent
    have hchr := post.changes
    rw [hT] at hchr
    refine ⟨⟨by rw [hclose.tree, post.tree], ?_, ?_, ?_⟩, fun _ => hparent⟩
    · -- the stream opened here is not one of the live ones
      intro k _ hlive
      have hk : k ≠ S.dir vfsDir := by
        rintro rfl
        rw [hS] at hfree
        exact hlive hfree
      have hk₂ : v.dir k = (S.view s.sys).dir k := by rw [hdirs.elsewhere k hk, hS]
      rw [hclose.dir.elsewhere k hk, post.dirs k hk (by rw [hv, hk₂]; exact hlive), hv, hk₂]
    · rw [hT₄]
      exact hch.trans (hchr.mono fun q ⟨n, _, _, hpre⟩ => (List.prefix_append p [n]).trans hpre)
    · intro h0 hfull hdur
      rw [hT₄]
      have hself := hchr.outside (not_under_self p names)
      exact done_tree hwf hdir hlist (by rw [hself]; exact hne)
        (fun hex => by rw [hself]; exact hent h0 hex) (post.done h0 hfull hdur)

theorem WalkPost.readdirFail (env : TreeEnv full durable libc vfs target S T) {dir : CString}
    {vfsDir : δ} {s s₁ : WalkState σ} (hd : s.readDir vfs (some vfsDir) = (false, s₁)) :
    WalkPost full durable S T src s (s₁.freePath libc none) (-1) (.entries dir vfsDir) := by
  intro p rest hn hopened hsrc hstream _ hrest
  obtain ⟨hT, htree, hdirs, _⟩ := readDir_tree env hn.proper hopened hsrc hstream hrest hd
  exact ⟨.failed (by rw [env.source_free, htree])
    (fun k hk _ => by rw [env.source_free, hdirs k hk]) (by rw [env.target_free, hT]), by simp⟩

theorem WalkPost.finished (env : TreeEnv full durable libc vfs target S T) {dir : CString}
    {vfsDir : δ} {s s₁ : WalkState σ} (hd : s.readDir vfs (some vfsDir) = (true, s₁))
    (hend : s₁.dirent.type = .endMark) :
    WalkPost full durable S T src s (s₁.freePath libc none) 0 (.entries dir vfsDir) := by
  intro p rest hn hopened hsrc hstream _ hrest
  obtain ⟨hT, htree, hdirs, hfound⟩ := readDir_tree env hn.proper hopened hsrc hstream hrest hd
  obtain ⟨_, rfl⟩ | ⟨n, rest', _, _, hdel⟩ := hfound rfl
  · refine ⟨⟨by rw [env.source_free, htree], fun k hk _ => by rw [env.source_free, hdirs k hk],
      by rw [env.target_free, hT]; exact .refl, ?_⟩, ?_⟩
    · rintro _ _ _ q ⟨n, hmem, _⟩
      cases hmem
    · rintro _ ⟨n, hmem, _⟩
      cases hmem
  · exact absurd hend hdel.type_ne

theorem WalkPost.allocFail (env : TreeEnv full durable libc vfs target S T) {dir : CString}
    {vfsDir : δ} {s s₁ s₂ : WalkState σ} (hd : s.readDir vfs (some vfsDir) = (true, s₁))
    (ha : s₁.entryPath libc dir = (none, s₂)) :
    WalkPost full durable S T src s (s₂.freePath libc none) (-1) (.entries dir vfsDir) := by
  intro p rest hn hopened hsrc hstream _ hrest
  obtain ⟨hT, htree, hdirs, _⟩ := readDir_tree env hn.proper hopened hsrc hstream hrest hd
  have hS₂ := entryPath_keeps env.source_libc ha
  have hT₂ := entryPath_keeps env.target_libc ha
  exact ⟨.failed (by rw [env.source_free, hS₂, htree])
    (fun k hk _ => by rw [env.source_free, hS₂, hdirs k hk])
    (by rw [env.target_free, hT₂, hT]), by simp⟩

/-- A `readdir` that finds an entry, and the allocation of its path: the next name of the stream is
in the slot, its path has been put together, and nothing else has changed. -/
theorem nextEntry_tree (env : TreeEnv full durable libc vfs target S T) {dir : CString} {p : Path}
    (hn : Names dir p) {h : δ} {rest : List Name} (hopened : S.opened h p)
    {s s₁ s₂ : WalkState σ} {path : HeapString} (hsrc : (S.view s.sys).tree = src)
    (hstream : (S.view s.sys).dir (S.dir h) = some ⟨S.root ++ p, rest⟩)
    (hrest : ∀ n ∈ rest, IsDots n ∨ Proper n) (hd : s.readDir vfs (some h) = (true, s₁))
    (hend : s₁.dirent.type ≠ .endMark) (ha : s₁.entryPath libc dir = (some path, s₂)) :
    T.view s₂.sys = T.view s.sys ∧ (S.view s₂.sys).tree = src ∧
      (∀ k, k ≠ S.dir h → (S.view s₂.sys).dir k = (S.view s.sys).dir k) ∧
      ∃ n rest', rest = n :: rest' ∧
        (S.view s₂.sys).dir (S.dir h) = some ⟨S.root ++ p, rest'⟩ ∧
        Delivered src (S.root ++ p) n s₂.dirent ∧ (Proper n → Names path.str (p ++ [n])) := by
  obtain ⟨hT, htree, hdirs, hfound⟩ := readDir_tree env hn.proper hopened hsrc hstream hrest hd
  obtain ⟨hend', _⟩ | ⟨n, rest', rfl, hstream', hdel⟩ := hfound rfl
  · exact absurd hend' hend
  obtain ⟨hjoin, hslot⟩ := entryPath_sys ha
  have hS₂ := entryPath_keeps env.source_libc ha
  have hT₂ := entryPath_keeps env.target_libc ha
  refine ⟨by rw [hT₂, hT], by rw [hS₂, htree], fun k hk => by rw [hS₂, hdirs k hk],
    n, rest', rfl, by rw [hS₂, hstream'], by rw [hslot]; exact hdel, fun hp => ?_⟩
  rw [appendDirAlloc_some hjoin, hdel.name]
  exact hn.join hp

theorem WalkPost.entryFail (env : TreeEnv full durable libc vfs target S T) {dir : CString}
    {vfsDir : δ} {s s₁ s₂ s₃ : WalkState σ} {path : HeapString} {err : Int}
    (hd : s.readDir vfs (some vfsDir) = (true, s₁)) (hend : s₁.dirent.type ≠ .endMark)
    (ha : s₁.entryPath libc dir = (some path, s₂))
    (ih : WalkPost full durable S T src s₂ s₃ err (.entry path.str)) :
    WalkPost full durable S T src s (s₃.freePath libc (some path)) (-1) (.entries dir vfsDir) := by
  intro p rest hn hopened hsrc hstream _ hrest
  obtain ⟨hT, htree, hdirs, n, rest', rfl, hstream', hdel, hnames⟩ :=
    nextEntry_tree env hn hopened hsrc hstream hrest hd hend ha
  obtain ⟨post, _⟩ := ih p n hdel hnames htree
  refine ⟨⟨by rw [env.source_free, post.tree], ?_, ?_, by simp⟩, by simp⟩
  · intro k hk hlive
    rw [env.source_free, post.dirs k (by simp) (by rw [hdirs k hk]; exact hlive), hdirs k hk]
  · rw [env.target_free, ← hT]
    exact post.changes.mono fun q hq => ⟨n, by simp, hq⟩

theorem WalkPost.next (env : TreeEnv full durable libc vfs target S T) {dir : CString}
    {vfsDir : δ} {s s₁ s₂ s₃ s₄ : WalkState σ} {path : HeapString} {r : Int}
    (hd : s.readDir vfs (some vfsDir) = (true, s₁)) (hend : s₁.dirent.type ≠ .endMark)
    (ha : s₁.entryPath libc dir = (some path, s₂))
    (ihe : WalkPost full durable S T src s₂ s₃ 0 (.entry path.str))
    (ihr : WalkPost full durable S T src (s₃.freePath libc (some path)) s₄ r
      (.entries dir vfsDir)) :
    WalkPost full durable S T src s s₄ r (.entries dir vfsDir) := by
  intro p rest hn hopened hsrc hstream hnodup hrest
  obtain ⟨hT, htree, hdirs, n, rest', rfl, hstream', hdel, hnames⟩ :=
    nextEntry_tree env hn hopened hsrc hstream hrest hd hend ha
  obtain ⟨poste, hpe⟩ := ihe p n hdel hnames htree
  have hkeep := poste.dirs (S.dir vfsDir) (by simp) (by rw [hstream']; simp)
  obtain ⟨postr, hpr⟩ := ihr p rest' hn hopened (by rw [env.source_free, poste.tree])
    (by rw [env.source_free, hkeep, hstream'])
    (hnodup.sublist ((List.sublist_cons_self n rest').filter _))
    (fun m hm => hrest m (List.mem_cons_of_mem n hm))
  have hche := poste.changes
  have hchr := postr.changes
  rw [hT] at hche hpe
  rw [env.target_free] at hchr hpr
  refine ⟨⟨postr.tree, ?_, ?_, ?_⟩, ?_⟩
  · intro k hk hlive
    have hlive₂ : (S.view s₂.sys).dir k ≠ none := by rw [hdirs k hk]; exact hlive
    have h₃ := poste.dirs k (by simp) hlive₂
    rw [postr.dirs k hk (by rw [env.source_free, h₃]; exact hlive₂), env.source_free, h₃,
      hdirs k hk]
  · refine (hche.mono fun q hq => ⟨n, by simp, hq⟩).trans (hchr.mono ?_)
    rintro q ⟨m, hm, hq⟩
    exact ⟨m, List.mem_cons_of_mem n hm, hq⟩
  · intro h0 hfull hdur
    -- the subtree of this entry is not touched again, the names being distinct
    have hdone := (poste.done rfl hfull hdur).keep hchr fun q => not_under_of_nodup hnodup
    refine (hdone.or (postr.done h0 hfull hdur)).mono ?_
    rintro q ⟨m, hm, hdots, hpre⟩
    rcases List.mem_cons.mp hm with rfl | hm
    · exact .inl ⟨hdots, hpre⟩
    · exact .inr ⟨m, hm, hdots, hpre⟩
  · rintro h0 ⟨m, hm, hdots⟩
    by_cases hd' : IsDots n
    · -- `.` and `..` do nothing, so another entry shows the directory
      rcases List.mem_cons.mp hm with rfl | hm
      · exact absurd hd' hdots
      · rw [← hche.outside (p := p) (fun hq => hq.1 hd')]
        exact hpr h0 ⟨m, hm, hdots⟩
    · exact hpe rfl hd'

theorem WalkPost.file (env : TreeEnv full durable libc vfs target S T)
    (hwf : WellFormed src S.root) {path : CString} {s s₁ : WalkState σ} {r : Int}
    (htype : s.dirent.type = .file) (hf : FileRun vfs target path s r s₁) :
    WalkPost full durable S T src s s₁ r (.entry path) := by
  intro p n hdel hnames hsrc
  obtain ⟨_, hdt⟩ | ⟨hp, ⟨⟨c, hc⟩, _⟩ | ⟨_, hdt⟩⟩ := hdel.type
  · rw [hdt] at htype; cases htype
  · rw [List.append_assoc] at hc
    obtain ⟨post, hparent⟩ := hf.tree env (hnames hp) hc hsrc
    refine ⟨⟨post.tree, post.dirs, post.changes.mono ?_, ?_⟩, fun h0 _ => hparent h0 _ n (by simp)⟩
    · rintro q rfl
      exact ⟨not_isDots hp, List.prefix_refl _⟩
    · intro h0 hfull hdur
      exact (done_file hwf hc (post.done h0 hfull hdur)).mono fun q hq => hq.2
  · rw [hdt] at htype; cases htype

theorem WalkPost.subtree {path : CString} {s s₁ : WalkState σ} {r : Int}
    (htype : s.dirent.type ≠ .file) (hdot : cstr s.dirent.name ≠ dot)
    (hdotdot : cstr s.dirent.name ≠ dotdot)
    (ih : WalkPost full durable S T src s s₁ r (.tree path)) :
    WalkPost full durable S T src s s₁ r (.entry path) := by
  intro p n hdel hnames hsrc
  obtain ⟨hdots, _⟩ | ⟨hp, ⟨_, hft⟩ | ⟨hdir, _⟩⟩ := hdel.type
  · rw [← hdel.name] at hdots
    exact absurd hdots (by rintro (h | h) <;> contradiction)
  · exact absurd hft htype
  · rw [List.append_assoc] at hdir
    obtain ⟨post, hparent⟩ := ih (p ++ [n]) (hnames hp) hdir hsrc
    refine ⟨⟨post.tree, post.dirs, post.changes.mono fun q hq => ⟨not_isDots hp, hq⟩, ?_⟩,
      fun h0 _ => hparent h0 _ n (by simp)⟩
    exact fun h0 hfull hdur => (post.done h0 hfull hdur).mono fun q hq => hq.2

theorem WalkPost.skipped {path : CString} {s : WalkState σ}
    (hname : cstr s.dirent.name = dot ∨ cstr s.dirent.name = dotdot) :
    WalkPost full durable S T src s s 0 (.entry path) := by
  intro p n hdel hnames hsrc
  have hdots : IsDots n := by rw [← hdel.name]; exact hname
  exact ⟨⟨hsrc, fun _ _ _ => rfl, .refl, fun _ _ _ q hq => absurd hdots hq.1⟩,
    fun _ h => absurd hdots h⟩

theorem WalkRun.tree (env : TreeEnv full durable libc vfs target S T)
    (hwf : WellFormed src S.root) {task : Task δ} {s s' : WalkState σ} {r : Int}
    (h : WalkRun libc vfs target task s r s') : WalkPost full durable S T src s s' r task := by
  induction h with
  | mkdirFail hm _ => exact .mkdirFail env hm
  | opendirFail hm ho => exact .opendirFail env hm ho
  | opened hm ho _ ih => exact .opened env hwf hm ho ih
  | readdirFail hd => exact .readdirFail env hd
  | finished hd hend => exact .finished env hd hend
  | allocFail hd _ ha => exact .allocFail env hd ha
  | entryFail hd hend ha _ _ ih => exact .entryFail env hd hend ha ih
  | next hd hend ha _ _ ihe ihr => exact .next env hd hend ha ihe ihr
  | file htype hf => exact .file env hwf htype hf
  | subtree htype hdot hdotdot _ ih => exact .subtree htype hdot hdotdot ih
  | skipped _ hname => exact .skipped hname

end Transfer

end LfsTool
