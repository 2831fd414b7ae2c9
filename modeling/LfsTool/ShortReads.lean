import Mathlib.Data.List.TakeDrop
import LfsTool.RoundTrip

/-!
# LfsTool.ShortReads

The copy loop of `process_file` on a native source file, whose reads may return less than asked for
before the end of the file.

The loop takes any read below `sizeof(m_buffer)` for the last one. So what it copies is the part of
the file up to the first such read (`CopyRun.upTo`), and a run that returns 0 has copied the file
exactly if that read reached the end (`processFile_complete_iff`).
-/

namespace LfsTool

open PathSyntax TreeFs WalkState

/-- How many bytes read number `i` of a file returns after reads of a full buffer, the outcome of
the first read being number `t` of the script. -/
def readLength (sc : Script) (t : Nat) (c : List UInt8) (i : Nat) : Nat :=
  (sc (t + i)).transfer (min bufferSize (c.length - bufferSize * i))

/-- The first read that returns less than a full buffer reaches the end of the file. -/
def ShortOnlyAtEnd (sc : Script) (t : Nat) (c : List UInt8) : Prop :=
  ∀ k, (∀ i < k, readLength sc t c i = bufferSize) → readLength sc t c k < bufferSize →
    c.length ≤ bufferSize * k + readLength sc t c k

section Copy

variable {env : Env} {src : Tree} {inn : NativeFile} {out : Ptr} {p : Path} {c : List UInt8}

theorem treePosix_read {fd : Int} {n : Nat} {w w' : World} {o : Option (List UInt8)}
    (h : (treePosix env).read fd n w = (o, w')) :
    (w.native.read env.native fd.toNat n).1 = o ∧
      w'.native = (w.native.read env.native fd.toNat n).2 := by
  simp only [treePosix] at h
  cases h
  exact ⟨rfl, rfl⟩

theorem readBuffer_native {s s₁ : WalkState World} {rb : Int} {read pos : Nat}
    (hc : src ((nativeLens env).root ++ p) = some (.file c))
    (hr : s.readBuffer (treeNative env) (some inn) = (rb, s₁))
    (h : Copying (nativeLens env) imageLens src inn out p c read pos s.sys) :
    s₁.sys.native.tick = s.sys.native.tick + 1 ∧ (0 ≤ rb →
      rb = ((env.native s.sys.native.tick).transfer (min bufferSize (c.length - read)) : Nat)) := by
  have hread := readBuffer_sys hr
  simp only [treeNative, vfsNative] at hread
  obtain ⟨o, hposix, hback⟩ := nativeRead_cases hread
  obtain ⟨ho, hw⟩ := treePosix_read hposix
  refine ⟨by rw [hw]; exact Disk.read_tick _ _ _ _, fun hpos => ?_⟩
  generalize s₁.mBuffer = buf at hback
  cases hback with
  | error hneg => omega
  | @bytes data =>
    have hget : s.sys.native.fs.get ((nativeLens env).root ++ p) = some (.file c) := by
      rw [← hc, ← h.tree]
      rfl
    rw [Disk.read_some h.inn hget ho]

theorem writeBuffer_native {s s₁ : WalkState World} {rb wb : Int}
    (hw : s.writeBuffer (treeImage env) (some out) rb = (wb, s₁)) :
    s₁.sys.native.tick = s.sys.native.tick := by
  rw [← (treeImage_native env).write (some out) s.mBuffer rb.toNat s.sys, writeBuffer_sys hw]

/-- A copy that ends with 0 has copied the file up to the first read below a full buffer. By
induction on the run; before the `k`-th read all reads were full, and both positions are the end of
the `k`-th buffer. -/
theorem CopyRun.upTo {t : Nat} (hc : src ((nativeLens env).root ++ p) = some (.file c))
    {s s' : WalkState World} {r : Int}
    (h : CopyRun (treeNative env) (treeImage env) (some inn) (some out) s r s') :
    ∀ k, s.sys.native.tick = t + k → (∀ i < k, readLength env.native t c i = bufferSize) →
      Copying (nativeLens env) imageLens src inn out p c (bufferSize * k) (bufferSize * k) s.sys →
      r = 0 → ∃ k' read', (∀ i < k', readLength env.native t c i = bufferSize) ∧
        readLength env.native t c k' < bufferSize ∧
        Copying (nativeLens env) imageLens src inn out p c read'
          (bufferSize * k' + readLength env.native t c k') s'.sys := by
  induction h with
  | readFail => intro _ _ _ _ h0; cases h0
  | writeFail => intro _ _ _ _ h0; cases h0
  | @last s s₁ s₂ rb hr hrb hw hshort =>
    intro k htick hbefore hcp _
    obtain ⟨_, hlen⟩ := readBuffer_native hc hr hcp
    obtain ⟨_, _, ⟨hneg, _⟩ | ⟨m, rfl, hbuf, hm, hle, _, hcp₁⟩⟩ :=
      hcp.readBuffer (create_env env) hc hr
    · omega
    · obtain ⟨_, _, pos', hcp₂, hpos⟩ := hcp₁.writeBuffer (create_env env) hw hbuf hm
      obtain rfl := hpos rfl
      have hmk : m = readLength env.native t c k := by
        rw [readLength, ← htick]
        exact_mod_cast hlen hrb
      refine ⟨k, _, hbefore, ?_, hmk ▸ hcp₂⟩
      rw [← hmk]
      omega
  | @more s s₁ s₂ s₃ rb r hr hrb hw hall _ ih =>
    intro k htick hbefore hcp h0
    obtain ⟨htick₁, hlen⟩ := readBuffer_native hc hr hcp
    obtain ⟨_, _, ⟨hneg, _⟩ | ⟨m, rfl, hbuf, hm, hle, _, hcp₁⟩⟩ :=
      hcp.readBuffer (create_env env) hc hr
    · omega
    · obtain ⟨_, _, pos', hcp₂, hpos⟩ := hcp₁.writeBuffer (create_env env) hw hbuf hm
      obtain rfl := hpos rfl
      have hmk : m = readLength env.native t c k := by
        rw [readLength, ← htick]
        exact_mod_cast hlen hrb
      have hm' : m = bufferSize := by exact_mod_cast hall
      subst hm'
      refine ih (k + 1) (by rw [writeBuffer_native hw, htick₁, htick]; omega) ?_ hcp₂ h0
      intro i hi
      rcases Nat.lt_succ_iff_lt_or_eq.mp hi with hi | rfl
      · exact hbefore i hi
      · exact hmk.symm

theorem openFile_native_tick {path : CString} {s s₁ : WalkState World}
    (h : s.openFile (treeNative env) path O_RDONLY = (some inn, s₁)) :
    s₁.sys.native.tick = s.sys.native.tick + 1 := by
  have hopen := openFile_sys h
  simp only [treeNative, vfsNative] at hopen
  obtain ⟨hnone, _⟩ | ⟨w₁, w₂, fd, hw₁, ho, hw, _⟩ := nativeOpen_cases (treeLibc_native env) hopen
  · cases hnone
  · simp only [treePosix, if_true] at ho
    cases ho
    rw [hw, ← hw₁]
    exact Disk.openRead_tick _ _ _ _

theorem openFile_image_tick {path : CString} {flags : Nat} {r : Option Ptr} {s s₁ : WalkState World}
    (h : s.openFile (treeImage env) path flags = (r, s₁)) :
    s₁.sys.native.tick = s.sys.native.tick := by
  rw [← (treeImage_native env).open_ path flags s.sys, openFile_sys h]

end Copy

theorem processFile_complete_iff {env : Env} {path : CString} {p : Path} (hn : Names path p)
    {c : List UInt8} {fuel : Nat} {s s' : WalkState World}
    (hc : s.sys.native.fs.get (env.nativeRoot ++ p) = some (.file c)) (hdur : env.image.Durable)
    (h : processFile (treeNative env) (treeImage env) fuel path s = some (0, s')) :
    s'.sys.image.fs.get p = some (.file c) ↔
      ShortOnlyAtEnd env.native (s.sys.native.tick + 1) c := by
  have hrun := processFile_run h
  generalize hr : (0 : Int) = r at hrun
  cases hrun with
  | outFail => cases hr
  | inFail => cases hr
  | @copied s₁ s₂ s₃ out inn _ ho hi hcopy =>
    obtain ⟨hcp, _⟩ := Copying.start (c := c) (create_env env) hn rfl ho hi
    have htick : s₂.sys.native.tick = s.sys.native.tick + 1 := by
      rw [openFile_native_tick hi, openFile_image_tick ho]
    obtain ⟨k, read', hfull, hshort, hcp'⟩ := hcopy.upTo hc 0 htick (by simp) hcp hr.symm
    obtain ⟨_, _, _, pos, hcontent, hpos⟩ := hcp'.finish (create_env env) rfl
    obtain rfl := hpos hdur
    have hend : ShortOnlyAtEnd env.native (s.sys.native.tick + 1) c ↔
        c.length ≤ bufferSize * k + readLength env.native (s.sys.native.tick + 1) c k := by
      refine ⟨fun hs => hs k hfull hshort, fun hle k' hfull' hshort' => ?_⟩
      -- there is only one read that is the first to fall short
      rcases Nat.lt_trichotomy k k' with hlt | rfl | hlt
      · exact absurd (hfull' k hlt) (Nat.ne_of_lt hshort)
      · exact hle
      · exact absurd (hfull k' hlt) (Nat.ne_of_lt hshort')
    have hget : ((s₃.closeFile (treeNative env) (some inn)).2.closeFile (treeImage env)
        (some out)).2.sys.image.fs.get p = some (.file (c.take (bufferSize * k +
          readLength env.native (s.sys.native.tick + 1) c k))) := hcontent
    rw [hend, hget, Option.some.injEq, Node.file.injEq, List.take_eq_self_iff]

def slowEnv : Env := { calmEnv with native := fun i => ⟨true, true, none, some 1, i, [], false⟩ }

theorem slowEnv_durable : slowEnv.image.Durable := Script.calm_sureCloses.durable

def twoBytes : World where
  allocs := 0
  native := .idle [([], .dir), ([outName], .dir), ([outName, aName], .file [1, 2])]
  image := .idle [([], .dir)]

abbrev aPath : CString := slash :: aName

theorem names_aPath : Names aPath [aName] := ⟨rfl, rfl, by decide⟩

theorem processFile_complete_iff_twoBytes :
    ∃ s', processFile (treeNative slowEnv) (treeImage slowEnv) 1 aPath (.start twoBytes) =
        some (0, s') ∧
      (s'.sys.image.fs.get [aName] = some (.file [1, 2]) ↔
        ShortOnlyAtEnd slowEnv.native 1 [1, 2]) := by
  obtain ⟨s', h⟩ := exists_state (r := 0)
    (o := processFile (treeNative slowEnv) (treeImage slowEnv) 1 aPath (.start twoBytes))
    (by decide +kernel)
  exact ⟨s', h, processFile_complete_iff names_aPath (by decide) slowEnv_durable h⟩

/-- The first read returns one of the two bytes, and the copy is taken for complete. -/
theorem incomplete_twoBytes :
    ∃ s', processFile (treeNative slowEnv) (treeImage slowEnv) 1 aPath (.start twoBytes) =
        some (0, s') ∧
      twoBytes.native.fs.get (slowEnv.nativeRoot ++ [aName]) = some (.file [1, 2]) ∧
      slowEnv.image.Durable ∧ s'.sys.image.fs.get [aName] ≠ some (.file [1, 2]) := by
  have hrun : (processFile (treeNative slowEnv) (treeImage slowEnv) 1 aPath (.start twoBytes)).map
      (fun r => (r.1, r.2.sys.image.fs.get [aName])) = some (0, some (.file [1])) := by
    decide +kernel
  obtain ⟨⟨r, s'⟩, h, hr⟩ := Option.map_eq_some_iff.mp hrun
  simp only [Prod.mk.injEq] at hr
  obtain ⟨rfl, hfile⟩ := hr
  exact ⟨s', h, by decide, slowEnv_durable, by rw [hfile]; decide⟩

end LfsTool
