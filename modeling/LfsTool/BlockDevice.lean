import LfsTool.Image
import LfsTool.Lib.ByteFile

/-!
# LfsTool.BlockDevice

The image as a block device. `fileStdio` is stdio on a seekable byte array whose calls fail as a
script says, and `Cmd` a call of one of the four callbacks.

* `blockOffset_toNat`: no address wraps in an image below 4 GiB.
* `Cmd.exec_spec`: what one call does to the file, whether it fails or not.
* `image_refines_device`: the file refines an array of independent blocks, over any sequence of calls.
* `addressesExact_iff`: the addresses are right for images below 4 GiB and for no others.
-/

namespace LfsTool

open BlockArray ByteFile

/-! ## Addresses -/

/-- The size of the device in bytes, exactly. -/
def LfsConfig.size (c : LfsConfig) : Nat := c.blockCount.toNat * c.blockSize.toNat

section Address

variable {c : LfsConfig} {block off : UInt32}

theorem blockOffset_toNat (hsize : c.size < 2 ^ 32) (hb : block < c.blockCount)
    (ho : off.toNat ≤ c.blockSize.toNat) :
    (blockOffset c block off).toNat = block.toNat * c.blockSize.toNat + off.toNat := by
  have hle : block.toNat * c.blockSize.toNat + off.toNat ≤ c.size :=
    index_le (UInt32.lt_iff_toNat_lt.mp hb) ho
  rw [blockOffset, UInt32.toNat_toUInt64, UInt32.toNat_add, UInt32.toNat_mul,
    Nat.mul_comm c.blockSize.toNat, Nat.mod_eq_of_lt (a := block.toNat * _) (by omega),
    Nat.mod_eq_of_lt (by omega)]

theorem eraseOffset_toNat (hsize : c.size < 2 ^ 32) (hb : block < c.blockCount) :
    (eraseOffset c block).toNat = block.toNat * c.blockSize.toNat := by
  have hle : block.toNat * c.blockSize.toNat + 0 ≤ c.size :=
    index_le (UInt32.lt_iff_toNat_lt.mp hb) (Nat.zero_le _)
  rw [eraseOffset, UInt32.toNat_toUInt64, UInt32.toNat_mul, Nat.mul_comm c.blockSize.toNat,
    Nat.mod_eq_of_lt (by omega)]

theorem prefillSize_toNat (c : LfsConfig) : (prefillSize c).toNat = c.size % 2 ^ 32 := by
  rw [prefillSize, UInt32.toNat_toUInt64, UInt32.toNat_mul, LfsConfig.size]

end Address

/-! ## stdio on a byte array -/

def fileStdio (script : Script) : Stdio Stream where
  fopen _ mode s :=
    match script s.tick with
    | none => (true, ⟨if mode = .wPlusB then [] else s.content, 0, s.tick + 1⟩)
    | some _ => (false, { s with tick := s.tick + 1 })
  fseek pos s := (seek script s pos).map (fun ok => if ok then 0 else -1) id
  fread n s := read script s n
  fwrite data s := write script s data
  fputc b s := (put script s b).map (fun ok => if ok then b.toNat else EOF) id
  fflush s := (flush script s).map (fun ok => if ok then 0 else EOF) id

section Stdio

variable {script : Script} {s s' : Stream}

theorem fseek_spec {pos : Nat} {err : Int} (h : (fileStdio script).fseek pos s = (err, s')) :
    s'.content = s.content ∧ s.tick ≤ s'.tick ∧
      (err = 0 ∧ s'.pos = pos ∧ ¬script.Fails s s' ∨ err ≠ 0 ∧ script.Fails s s') := by
  simp only [fileStdio] at h
  cases hs : seek script s pos with
  | mk ok s₁ =>
    rw [hs] at h
    cases h
    obtain ⟨hcontent, htick, hok⟩ := seek_spec hs
    refine ⟨hcontent, htick, ?_⟩
    rcases hok with ⟨rfl, hpos, hf⟩ | ⟨rfl, hf⟩
    · exact .inl ⟨rfl, hpos, hf⟩
    · exact .inr ⟨by decide, hf⟩

theorem fflush_spec {r : Int} (h : (fileStdio script).fflush s = (r, s')) :
    s'.content = s.content ∧ s.tick ≤ s'.tick ∧
      (r ≠ EOF ∧ ¬script.Fails s s' ∨ r = EOF ∧ script.Fails s s') := by
  simp only [fileStdio] at h
  cases hs : flush script s with
  | mk ok s₁ =>
    rw [hs] at h
    cases h
    obtain ⟨hcontent, htick, hok⟩ := flush_spec hs
    refine ⟨hcontent, htick, ?_⟩
    rcases hok with ⟨rfl, hf⟩ | ⟨rfl, hf⟩
    · exact .inl ⟨by decide, hf⟩
    · exact .inr ⟨rfl, hf⟩

theorem fputc_spec {c : Int} (hpos : s.pos ≤ s.content.length)
    (h : (fileStdio script).fputc 0xff s = (c, s')) :
    s.tick ≤ s'.tick ∧
      (c = 0xff ∧ s'.content = overwrite s.content s.pos [0xff] ∧ s'.pos = s.pos + 1 ∧
          ¬script.Fails s s' ∨
        c ≠ 0xff ∧ s'.content = s.content ∧ script.Fails s s') := by
  simp only [fileStdio, put] at h
  cases hw : write script s [0xff] with
  | mk n s₁ =>
    simp only [hw] at h
    cases h
    obtain ⟨hcontent, hpos', htick, hn⟩ := write_spec hpos hw
    refine ⟨htick, ?_⟩
    rcases hn with ⟨rfl, hf⟩ | ⟨hlt, hf⟩
    · exact .inl ⟨rfl, hcontent, hpos', hf⟩
    · have hzero : n = 0 := by simpa using hlt
      subst hzero
      rw [List.take_zero, overwrite_nil] at hcontent
      exact .inr ⟨by decide, hcontent, hf⟩

/-- The loop puts as many bytes as it can, by induction on the number left. -/
theorem fillLoop_spec {n : Nat} {ok : Bool} (hpos : s.pos ≤ s.content.length)
    (h : fillLoop (fileStdio script) n s = (ok, s')) :
    ∃ k ≤ n, s'.content = overwrite s.content s.pos (List.replicate k 0xff) ∧ s.tick ≤ s'.tick ∧
      (ok = true ∧ k = n ∧ ¬script.Fails s s' ∨ ok = false ∧ script.Fails s s') := by
  induction n generalizing s with
  | zero =>
    cases h
    refine ⟨0, Nat.le_refl _, ?_, Nat.le_refl _, .inl ⟨rfl, rfl, not_fails_of_tick rfl⟩⟩
    rw [List.replicate_zero, overwrite_nil]
  | succ n ih =>
    rw [fillLoop] at h
    cases hc : (fileStdio script).fputc 0xff s with
    | mk c s₁ =>
      simp only [hc] at h
      obtain ⟨htick, ⟨hff, hcontent, hpos₁, hf⟩ | ⟨hne, hcontent, hf⟩⟩ := fputc_spec hpos hc
      · rw [if_neg (not_not.mpr hff)] at h
        have hlen : s₁.pos ≤ s₁.content.length := by
          rw [hcontent, hpos₁, overwrite]
          simp only [List.length_append, List.length_take, List.length_singleton]
          omega
        obtain ⟨k, hk, hcontent', htick', hok⟩ := ih hlen h
        refine ⟨k + 1, by omega, ?_, by omega, ?_⟩
        · have hone : overwrite (overwrite s.content s.pos [0xff]) (s.pos + 1)
              (List.replicate k 0xff) = overwrite s.content s.pos ([0xff] ++ List.replicate k 0xff) :=
            overwrite_overwrite [0xff] _ hpos
          rw [hcontent', hcontent, hpos₁, hone]
          rfl
        · rw [fails_trans htick htick']
          rcases hok with ⟨rfl, rfl, hf'⟩ | ⟨rfl, hf'⟩
          · exact .inl ⟨rfl, rfl, by tauto⟩
          · exact .inr ⟨rfl, .inr hf'⟩
      · rw [if_pos hne] at h
        cases h
        refine ⟨0, by omega, ?_, htick, .inr ⟨rfl, hf⟩⟩
        rw [hcontent, List.replicate_zero, overwrite_nil]

end Stdio

/-! ## Calls of the callbacks -/

inductive Cmd where
  | read (block off : UInt32) (buffer : List UInt8) (size : UInt32)
  | prog (block off : UInt32) (buffer : List UInt8) (size : UInt32)
  | erase (block : UInt32)
  | sync

namespace Cmd

/-- The calls the callbacks are made for; a buffer has `size` bytes. -/
def Valid (c : LfsConfig) : Cmd → Prop
  | read block off buffer size => block < c.blockCount ∧
      off.toNat + size.toNat ≤ c.blockSize.toNat ∧ size.toNat ≤ buffer.length
  | prog block off buffer size => block < c.blockCount ∧
      off.toNat + size.toNat ≤ c.blockSize.toNat ∧ size.toNat ≤ buffer.length
  | erase block => block < c.blockCount
  | sync => True

/-- The value returned, and what is in the buffer of a read afterwards. -/
def exec {σ : Type} (stdio : Stdio σ) (c : LfsConfig) : Cmd → σ → (Int × List UInt8) × σ
  | read block off buffer size, w => fsRead stdio c block off buffer size w
  | prog block off buffer size, w => (fsProg stdio c block off buffer size w).map (·, []) id
  | erase block, w => (fsErase stdio c block w).map (·, []) id
  | sync, w => (fsSync stdio w).map (·, []) id

def effect : Cmd → Device UInt8 → List UInt8 × Device UInt8
  | read block off buffer size, dev =>
    (dev.read block.toNat off.toNat size.toNat ++ buffer.drop size.toNat, dev)
  | prog block off buffer size, dev =>
    ([], dev.prog block.toNat off.toNat (buffer.take size.toNat))
  | erase block, dev => ([], dev.erase block.toNat 0xff)
  | sync, dev => ([], dev)

/-- The bytes of the file the call may change. -/
def Touches (c : LfsConfig) : Cmd → Nat → Prop
  | prog block off _ size, i =>
    block.toNat * c.blockSize.toNat + off.toNat ≤ i ∧
      i < block.toNat * c.blockSize.toNat + off.toNat + size.toNat
  | erase block, i =>
    block.toNat * c.blockSize.toNat ≤ i ∧
      i < block.toNat * c.blockSize.toNat + c.blockSize.toNat
  | _, _ => False

end Cmd

/-- What a call does: it returns 0 and has its effect on the array, or it returns -1 because a call
of stdio failed; no other byte changes in either case. -/
structure Performed (script : Script) (c : LfsConfig) (cmd : Cmd) (s : Stream)
    (r : Int × List UInt8) (s' : Stream) : Prop where
  length : s'.content.length = s.content.length
  tick : s.tick ≤ s'.tick
  frame : ∀ i, ¬cmd.Touches c i → s'.content[i]? = s.content[i]?
  result : script.Fails s s' ∧ r.1 = -1 ∨
    ¬script.Fails s s' ∧ r.1 = 0 ∧
      ∀ dev, Flat c.blockCount.toNat c.blockSize.toNat dev s.content →
        r.2 = (cmd.effect dev).1 ∧
          Flat c.blockCount.toNat c.blockSize.toNat (cmd.effect dev).2 s'.content

section Exec

variable {script : Script} {c : LfsConfig} {s s' : Stream} {cmd : Cmd}

theorem performed_of_fails (hcontent : s'.content = s.content) (htick : s.tick ≤ s'.tick)
    (hf : script.Fails s s') (buffer : List UInt8) : Performed script c cmd s (-1, buffer) s' :=
  ⟨by rw [hcontent], htick, fun i _ => by rw [hcontent], .inl ⟨hf, rfl⟩⟩

theorem performed_of_write {data : List UInt8} {a k : Nat} {r : Int}
    (htouch : ∀ i, a ≤ i ∧ i < a + data.length → cmd.Touches c i)
    (hle : a + data.length ≤ s.content.length)
    (hcontent : s'.content = overwrite s.content a (data.take k)) (htick : s.tick ≤ s'.tick)
    (hresult : script.Fails s s' ∧ r = -1 ∨ ¬script.Fails s s' ∧ r = 0 ∧ k = data.length)
    (heffect : ∀ dev, Flat c.blockCount.toNat c.blockSize.toNat dev s.content →
      (cmd.effect dev).1 = [] ∧
        Flat c.blockCount.toNat c.blockSize.toNat (cmd.effect dev).2 (overwrite s.content a data)) :
    Performed script c cmd s (r, []) s' := by
  have hk : (data.take k).length ≤ data.length := List.length_take_le' _ _
  refine ⟨by rw [hcontent, overwrite_length (by omega)], htick, fun i hi => ?_, ?_⟩
  · rw [hcontent, overwrite_getElem? _ (by omega), if_neg]
    exact fun hin => hi (htouch i ⟨hin.1, by omega⟩)
  · rcases hresult with ⟨hf, hr⟩ | ⟨hf, hr, rfl⟩
    · exact .inl ⟨hf, hr⟩
    · refine .inr ⟨hf, hr, fun dev hdev => ?_⟩
      rw [hcontent, List.take_length]
      exact ⟨(heffect dev hdev).1.symm, (heffect dev hdev).2⟩

theorem fsRead_spec (hsize : c.size < 2 ^ 32) (hlen : s.content.length = c.size)
    {block off size : UInt32} {buffer : List UInt8}
    (hv : (Cmd.read block off buffer size).Valid c) {r : Int × List UInt8}
    (h : fsRead (fileStdio script) c block off buffer size s = (r, s')) :
    Performed script c (.read block off buffer size) s r s' := by
  obtain ⟨hb, hoff, _⟩ := hv
  have haddr := blockOffset_toNat hsize hb (Nat.le_of_add_right_le hoff)
  have hend : block.toNat * c.blockSize.toNat + (off.toNat + size.toNat) ≤ c.size :=
    index_le (UInt32.lt_iff_toNat_lt.mp hb) hoff
  rw [fsRead, haddr] at h
  cases hs : (fileStdio script).fseek (block.toNat * c.blockSize.toNat + off.toNat) s with
  | mk err s₁ =>
    obtain ⟨hcontent, htick, hseek⟩ := fseek_spec hs
    simp only [hs] at h
    rcases hseek with ⟨herr, hpos, hf⟩ | ⟨herr, hf⟩
    · rw [if_neg (not_not.mpr herr)] at h
      cases hr : (fileStdio script).fread size.toNat s₁ with
      | mk bytes s₂ =>
        have hread := read_spec (s := s₁) (by rw [hpos, hcontent]; omega) hr
        obtain ⟨hcontent₁, htick₁, _, hbytes⟩ := hread
        have hsame : s₂.content = s.content := hcontent₁.trans hcontent
        simp only [hr] at h
        rcases hbytes with ⟨hdata, hcount, hf₁⟩ | ⟨hcount, hf₁⟩
        · rw [if_neg (not_not.mpr hcount)] at h
          cases h
          refine ⟨by rw [hsame], by omega, fun i _ => by rw [hsame],
            .inr ⟨?_, rfl, fun dev hdev => ⟨?_, by rw [hsame]; exact hdev⟩⟩⟩
          · rw [fails_trans htick htick₁]
            tauto
          · rw [hcount, hdata, hpos, hcontent, hdev.read (UInt32.lt_iff_toNat_lt.mp hb) hoff]
            rfl
        · rw [if_pos hcount] at h
          cases h
          exact performed_of_fails hsame (by omega) ((fails_trans htick htick₁).mpr (.inr hf₁)) _
    · rw [if_pos herr] at h
      cases h
      exact performed_of_fails hcontent htick hf _

theorem fsProg_spec (hsize : c.size < 2 ^ 32) (hlen : s.content.length = c.size)
    {block off size : UInt32} {buffer : List UInt8}
    (hv : (Cmd.prog block off buffer size).Valid c) {r : Int}
    (h : fsProg (fileStdio script) c block off buffer size s = (r, s')) :
    Performed script c (.prog block off buffer size) s (r, []) s' := by
  obtain ⟨hb, hoff, hbuf⟩ := hv
  have haddr := blockOffset_toNat hsize hb (Nat.le_of_add_right_le hoff)
  have hend : block.toNat * c.blockSize.toNat + (off.toNat + size.toNat) ≤ c.size :=
    index_le (UInt32.lt_iff_toNat_lt.mp hb) hoff
  have hdata : (buffer.take size.toNat).length = size.toNat := by
    rw [List.length_take]
    omega
  rw [fsProg, haddr] at h
  cases hs : (fileStdio script).fseek (block.toNat * c.blockSize.toNat + off.toNat) s with
  | mk err s₁ =>
    obtain ⟨hcontent, htick, hseek⟩ := fseek_spec hs
    simp only [hs] at h
    rcases hseek with ⟨herr, hpos, hf⟩ | ⟨herr, hf⟩
    · rw [if_neg (not_not.mpr herr)] at h
      cases hw : (fileStdio script).fwrite (buffer.take size.toNat) s₁ with
      | mk n s₂ =>
        obtain ⟨hcontent₁, _, htick₁, hn⟩ := write_spec (by rw [hpos, hcontent]; omega) hw
        rw [hcontent, hpos] at hcontent₁
        have hfails : script.Fails s s₂ ↔ script.Fails s s₁ ∨ script.Fails s₁ s₂ :=
          fails_trans htick htick₁
        have hwritten : ∀ {r : Int}, script.Fails s s₂ ∧ r = -1 ∨
            ¬script.Fails s s₂ ∧ r = 0 ∧ n = (buffer.take size.toNat).length →
            Performed script c (.prog block off buffer size) s (r, []) s₂ := by
          refine fun hr => performed_of_write (fun i hi => ?_) (by omega) hcontent₁ (by omega) hr
            fun dev hdev => ⟨rfl, hdev.prog (UInt32.lt_iff_toNat_lt.mp hb) (by rw [hdata]; exact hoff)⟩
          rwa [hdata] at hi
        simp only [hw] at h
        rcases hn with ⟨hcount, hf₁⟩ | ⟨hcount, hf₁⟩
        · rw [if_neg (not_not.mpr (hcount.trans hdata))] at h
          cases h
          exact hwritten (.inr ⟨by tauto, rfl, hcount⟩)
        · rw [if_pos (by omega)] at h
          cases h
          exact hwritten (.inl ⟨hfails.mpr (.inr hf₁), rfl⟩)
    · rw [if_pos herr] at h
      cases h
      exact performed_of_fails hcontent htick hf _

theorem fsErase_spec (hsize : c.size < 2 ^ 32) (hlen : s.content.length = c.size) {block : UInt32}
    (hb : block < c.blockCount) {r : Int}
    (h : fsErase (fileStdio script) c block s = (r, s')) :
    Performed script c (.erase block) s (r, []) s' := by
  have haddr := eraseOffset_toNat hsize hb
  have hend : block.toNat * c.blockSize.toNat + c.blockSize.toNat ≤ c.size :=
    index_le (UInt32.lt_iff_toNat_lt.mp hb) (Nat.le_refl _)
  have hdata : (List.replicate c.blockSize.toNat (0xff : UInt8)).length = c.blockSize.toNat :=
    List.length_replicate
  rw [fsErase, haddr] at h
  cases hs : (fileStdio script).fseek (block.toNat * c.blockSize.toNat) s with
  | mk err s₁ =>
    obtain ⟨hcontent, htick, hseek⟩ := fseek_spec hs
    simp only [hs] at h
    rcases hseek with ⟨herr, hpos, hf⟩ | ⟨herr, hf⟩
    · rw [if_neg (not_not.mpr herr)] at h
      cases hw : fillLoop (fileStdio script) c.blockSize.toNat s₁ with
      | mk ok s₂ =>
        obtain ⟨k, hk, hcontent₁, htick₁, hok⟩ :=
          fillLoop_spec (by rw [hpos, hcontent]; omega) hw
        have hfill : List.replicate k (0xff : UInt8) =
            (List.replicate c.blockSize.toNat 0xff).take k := by
          rw [List.take_replicate, Nat.min_eq_left hk]
        rw [hcontent, hpos, hfill] at hcontent₁
        have hfails : script.Fails s s₂ ↔ script.Fails s s₁ ∨ script.Fails s₁ s₂ :=
          fails_trans htick htick₁
        have hwritten : ∀ {r : Int}, script.Fails s s₂ ∧ r = -1 ∨
            ¬script.Fails s s₂ ∧ r = 0 ∧ k = (List.replicate c.blockSize.toNat (0xff : UInt8)).length →
            Performed script c (.erase block) s (r, []) s₂ := by
          refine fun hr => performed_of_write (fun i hi => ?_) (by omega) hcontent₁ (by omega) hr
            fun dev hdev => ⟨rfl, hdev.erase 0xff (UInt32.lt_iff_toNat_lt.mp hb)⟩
          rwa [hdata] at hi
        simp only [hw] at h
        rcases hok with ⟨hok, hcount, hf₁⟩ | ⟨hok, hf₁⟩
        · rw [if_pos hok] at h
          cases h
          exact hwritten (.inr ⟨by tauto, rfl, hcount.trans hdata.symm⟩)
        · rw [if_neg (by rw [hok]; decide)] at h
          cases h
          exact hwritten (.inl ⟨hfails.mpr (.inr hf₁), rfl⟩)
    · rw [if_pos herr] at h
      cases h
      exact performed_of_fails hcontent htick hf _

theorem fsSync_spec {r : Int} (h : fsSync (fileStdio script) s = (r, s')) :
    Performed script c .sync s (r, []) s' := by
  rw [fsSync] at h
  cases hs : (fileStdio script).fflush s with
  | mk r' s₁ =>
    obtain ⟨hcontent, htick, hr⟩ := fflush_spec hs
    simp only [hs] at h
    cases h
    refine ⟨by rw [hcontent], htick, fun i _ => by rw [hcontent], ?_⟩
    rcases hr with ⟨hne, hf⟩ | ⟨heof, hf⟩
    · exact .inr ⟨hf, if_pos hne, fun dev hdev => ⟨rfl, by rw [hcontent]; exact hdev⟩⟩
    · exact .inl ⟨hf, if_neg (not_not.mpr heof)⟩

theorem Cmd.exec_spec (hsize : c.size < 2 ^ 32) (hlen : s.content.length = c.size)
    (hv : cmd.Valid c) {r : Int × List UInt8} (h : cmd.exec (fileStdio script) c s = (r, s')) :
    Performed script c cmd s r s' := by
  cases cmd with
  | read block off buffer size => exact fsRead_spec hsize hlen hv h
  | prog block off buffer size =>
    cases h
    exact fsProg_spec hsize hlen hv (Prod.eta _).symm
  | erase block =>
    cases h
    exact fsErase_spec hsize hlen hv (Prod.eta _).symm
  | sync =>
    cases h
    exact fsSync_spec (Prod.eta _).symm

end Exec

/-! ## Sequences of calls -/

def execAll {σ : Type} (stdio : Stdio σ) (c : LfsConfig) :
    List Cmd → σ → List (Int × List UInt8) × σ
  | [], w => ([], w)
  | cmd :: cmds, w =>
    let (r, w) := cmd.exec stdio c w
    let (rs, w) := execAll stdio c cmds w
    (r :: rs, w)

def effectAll : List Cmd → Device UInt8 → List (List UInt8) × Device UInt8
  | [], dev => ([], dev)
  | cmd :: cmds, dev =>
    let (data, dev) := cmd.effect dev
    let (datas, dev) := effectAll cmds dev
    (data :: datas, dev)

section Run

variable {script : Script} {c : LfsConfig} {s s' : Stream}

theorem execAll_spec (hsize : c.size < 2 ^ 32) {cmds : List Cmd} (hv : ∀ cmd ∈ cmds, cmd.Valid c)
    {rs : List (Int × List UInt8)} (hlen : s.content.length = c.size)
    (h : execAll (fileStdio script) c cmds s = (rs, s')) :
    s'.content.length = c.size ∧ s.tick ≤ s'.tick ∧
      (¬script.Fails s s' →
        ∀ dev, Flat c.blockCount.toNat c.blockSize.toNat dev s.content →
          rs = (effectAll cmds dev).1.map (0, ·) ∧
            Flat c.blockCount.toNat c.blockSize.toNat (effectAll cmds dev).2 s'.content) := by
  induction cmds generalizing s rs with
  | nil =>
    cases h
    exact ⟨hlen, Nat.le_refl _, fun _ dev hdev => ⟨rfl, hdev⟩⟩
  | cons cmd cmds ih =>
    rw [execAll] at h
    cases hr : cmd.exec (fileStdio script) c s with
    | mk r s₁ =>
      have hcmd := Cmd.exec_spec hsize hlen (hv cmd (List.mem_cons_self ..)) hr
      simp only [hr] at h
      cases hrs : execAll (fileStdio script) c cmds s₁ with
      | mk rs₁ s₂ =>
        rw [hrs] at h
        cases h
        have hlen₁ := hcmd.length.trans hlen
        obtain ⟨hlen₂, htick, hrun⟩ := ih (fun cmd' hc => hv cmd' (List.mem_cons_of_mem _ hc)) hlen₁ hrs
        refine ⟨hlen₂, hcmd.tick.trans htick, fun hf dev hdev => ?_⟩
        rw [fails_trans hcmd.tick htick, not_or] at hf
        obtain ⟨hfail, _⟩ | ⟨_, hzero, heffect⟩ := hcmd.result
        · exact absurd hfail hf.1
        obtain ⟨hdata, hdev₁⟩ := heffect dev hdev
        obtain ⟨hdatas, hdev₂⟩ := hrun hf.2 _ hdev₁
        refine ⟨?_, hdev₂⟩
        rw [hdatas, effectAll, List.map_cons, ← hdata, ← hzero]

theorem prefill_content (hsize : c.size < 2 ^ 32) (hempty : s.content = [] ∧ s.pos = 0)
    (h : fillLoop (fileStdio script) (prefillSize c).toNat s = (true, s')) :
    s'.content = List.replicate c.size 0xff := by
  obtain ⟨k, _, hcontent, _, hok⟩ := fillLoop_spec (by rw [hempty.2]; exact Nat.zero_le _) h
  rcases hok with ⟨_, rfl, _⟩ | ⟨hfalse, _⟩
  · rw [hcontent, hempty.1, hempty.2, prefillSize_toNat, Nat.mod_eq_of_lt hsize, overwrite]
    simp
  · cases hfalse

theorem image_refines_device (script : Script) (c : LfsConfig) (hsize : c.size < 2 ^ 32)
    {image : CString} {s opened s₀ s' : Stream}
    (hopen : (fileStdio script).fopen image .wPlusB s = (true, opened))
    (hfill : fillLoop (fileStdio script) (prefillSize c).toNat opened = (true, s₀))
    {cmds : List Cmd} (hv : ∀ cmd ∈ cmds, cmd.Valid c) {rs : List (Int × List UInt8)}
    (h : execAll (fileStdio script) c cmds s₀ = (rs, s')) :
    s'.content.length = c.size ∧
      (¬script.Fails s₀ s' → rs = (effectAll cmds fun _ _ => 0xff).1.map (0, ·) ∧
        Flat c.blockCount.toNat c.blockSize.toNat (effectAll cmds fun _ _ => 0xff).2 s'.content) ∧
      ∀ (cmd : Cmd) (r : Int × List UInt8) (s'' : Stream), cmd.Valid c →
        cmd.exec (fileStdio script) c s' = (r, s'') →
          (script.Fails s' s'' → r.1 = -1) ∧ s''.content.length = c.size ∧
            ∀ i, ¬cmd.Touches c i → s''.content[i]? = s'.content[i]? := by
  have hempty : opened.content = [] ∧ opened.pos = 0 := by
    simp only [fileStdio, if_true] at hopen
    split at hopen <;> cases hopen
    exact ⟨rfl, rfl⟩
  have hcontent := prefill_content hsize hempty hfill
  have hlen : s₀.content.length = c.size := by rw [hcontent, List.length_replicate]
  obtain ⟨hlen', _, hrun⟩ := execAll_spec hsize hv hlen h
  refine ⟨hlen', fun hf => hrun hf _ ?_, fun cmd r s'' hcmd hexec => ?_⟩
  · rw [hcontent]
    exact Flat.replicate _ _ _
  · have hperf := Cmd.exec_spec hsize hlen' hcmd hexec
    refine ⟨fun hfail => ?_, hperf.length.trans hlen', hperf.frame⟩
    obtain ⟨_, hr⟩ | ⟨hok, _⟩ := hperf.result
    · exact hr
    · exact absurd hfail hok

end Run

def tinyConfig : LfsConfig := { mLfsConfig with blockSize := 2, blockCount := 2 }

/-- Every call succeeds but the write of the last byte of an erase. -/
def lateFailure : Script := fun i => if i = 11 then some 0 else none

def tinyCmds : List Cmd := [.prog 1 0 [7] 1, .read 1 0 [0, 0] 2]

theorem image_refines_device_tiny :
    let written : Stream := ⟨[0xff, 0xff, 7, 0xff], 4, 9⟩
    Flat 2 2 (effectAll tinyCmds fun _ _ => 0xff).2 written.content ∧
      ((Cmd.erase 0).exec (fileStdio lateFailure) tinyConfig written).1.1 = -1 := by
  intro written
  have hopen : (fileStdio lateFailure).fopen [] .wPlusB ⟨[1], 0, 0⟩ = (true, ⟨[], 0, 1⟩) := by
    decide +kernel
  have hfill : fillLoop (fileStdio lateFailure) (prefillSize tinyConfig).toNat ⟨[], 0, 1⟩ =
      (true, ⟨List.replicate 4 0xff, 4, 5⟩) := by
    decide +kernel
  have hrun : execAll (fileStdio lateFailure) tinyConfig tinyCmds ⟨List.replicate 4 0xff, 4, 5⟩ =
      ([(0, []), (0, [7, 0xff])], written) := by
    decide +kernel
  have hv : ∀ cmd ∈ tinyCmds, cmd.Valid tinyConfig := by
    simp only [tinyCmds, List.mem_cons, List.not_mem_nil, or_false, forall_eq_or_imp, forall_eq]
    exact ⟨⟨by decide, by decide, by decide⟩, ⟨by decide, by decide, by decide⟩⟩
  obtain ⟨_, hdevice, hframe⟩ :=
    image_refines_device lateFailure tinyConfig (by decide) hopen hfill hv hrun
  refine ⟨(hdevice ?_).2, (hframe (.erase 0) _ _ (by decide : (0 : UInt32) < 2) rfl).1 ?_⟩
  · rintro ⟨i, _, hlt, hi⟩
    have hlt' : i < 9 := hlt
    exact hi (if_neg (by omega))
  · exact ⟨11, by decide, by decide +kernel, by decide⟩

/-! ## Which images are addressed right -/

/-- Every place has its own address, inside what the prefill loop writes. -/
structure AddressesExact (c : LfsConfig) : Prop where
  offset : ∀ block off : UInt32, block < c.blockCount → off < c.blockSize →
    (blockOffset c block off).toNat = block.toNat * c.blockSize.toNat + off.toNat
  erase : ∀ block : UInt32, block < c.blockCount → 0 < c.blockSize →
    (eraseOffset c block).toNat = block.toNat * c.blockSize.toNat
  distinct : ∀ block off block' off' : UInt32, block < c.blockCount → off < c.blockSize →
    block' < c.blockCount → off' < c.blockSize →
    blockOffset c block off = blockOffset c block' off' → block = block' ∧ off = off'
  prefill : ∀ script opened s, opened.content = [] → opened.pos = 0 →
    fillLoop (fileStdio script) (prefillSize c).toNat opened = (true, s) →
      s.content.length = c.blockCount.toNat * c.blockSize.toNat ∧
        ∀ block off : UInt32, block < c.blockCount → off < c.blockSize →
          (blockOffset c block off).toNat < s.content.length

theorem addressesExact_of_size {c : LfsConfig} (hsize : c.size < 2 ^ 32) : AddressesExact c := by
  have hoffset : ∀ block off : UInt32, block < c.blockCount → off < c.blockSize →
      (blockOffset c block off).toNat = block.toNat * c.blockSize.toNat + off.toNat :=
    fun block off hb ho =>
      blockOffset_toNat hsize hb (Nat.le_of_lt (UInt32.lt_iff_toNat_lt.mp ho))
  refine ⟨hoffset, fun block hb _ => eraseOffset_toNat hsize hb, ?_, ?_⟩
  · intro block off block' off' hb ho hb' ho' heq
    have hnat := congrArg UInt64.toNat heq
    rw [hoffset block off hb ho, hoffset block' off' hb' ho',
      index_inj (UInt32.lt_iff_toNat_lt.mp ho) (UInt32.lt_iff_toNat_lt.mp ho')] at hnat
    exact ⟨UInt32.toNat_inj.mp hnat.1, UInt32.toNat_inj.mp hnat.2⟩
  · intro script opened s hcontent hpos hfill
    have hprefill := prefill_content hsize ⟨hcontent, hpos⟩ hfill
    have hlen : s.content.length = c.size := by rw [hprefill, List.length_replicate]
    refine ⟨hlen, fun block off hb ho => ?_⟩
    rw [hoffset block off hb ho, hlen]
    exact index_lt (UInt32.lt_iff_toNat_lt.mp hb) (UInt32.lt_iff_toNat_lt.mp ho)

theorem fillLoop_succeeds {script : Script} (hscript : ∀ i, script i = none) {n : Nat} {s : Stream}
    (hpos : s.pos ≤ s.content.length) : (fillLoop (fileStdio script) n s).1 = true := by
  obtain ⟨k, _, _, _, hok⟩ := fillLoop_spec hpos (Prod.eta (fillLoop (fileStdio script) n s)).symm
  rcases hok with ⟨hok, _⟩ | ⟨_, i, _, _, hi⟩
  · exact hok
  · exact absurd (hscript i) hi

theorem addressesExact_iff (c : LfsConfig) :
    AddressesExact c ↔ c.blockCount.toNat * c.blockSize.toNat < 2 ^ 32 := by
  refine ⟨fun h => ?_, addressesExact_of_size⟩
  -- the prefill loop puts fewer than 2^32 bytes
  obtain ⟨script, hscript⟩ : ∃ script : Script, ∀ i, script i = none := ⟨fun _ => none, fun _ => rfl⟩
  have hfill := fillLoop_succeeds hscript (n := (prefillSize c).toNat) (s := ⟨[], 0, 0⟩) (Nat.le_refl _)
  obtain ⟨s, hs⟩ : ∃ s, fillLoop (fileStdio script) (prefillSize c).toNat ⟨[], 0, 0⟩ = (true, s) :=
    ⟨_, Prod.ext hfill rfl⟩
  obtain ⟨hlen, _⟩ := h.prefill script ⟨[], 0, 0⟩ s rfl rfl hs
  obtain ⟨k, hk, hcontent, _, _⟩ := fillLoop_spec (Nat.le_refl _) hs
  have hle : s.content.length ≤ c.size % 2 ^ 32 := by
    rw [hcontent, ← prefillSize_toNat]
    simpa [overwrite] using hk
  have hlt := Nat.mod_lt c.size (show 0 < 2 ^ 32 by decide)
  omega

/-- `-b 4096 -a 1048577` -/
def overFourGiB : LfsConfig := configure 0 0 4096 1048577 mLfsConfig

/-- The first byte of the last block is the first byte of the superblock. -/
theorem not_addressesExact_overFourGiB :
    blockOffset overFourGiB 1048576 0 = blockOffset overFourGiB 0 0 ∧
      (1048576 : UInt32) < overFourGiB.blockCount ∧ (prefillSize overFourGiB).toNat = 4096 ∧
      ¬AddressesExact overFourGiB := by
  refine ⟨by decide, by decide, by decide, fun h => ?_⟩
  have hblock := h.distinct 1048576 0 0 0 (by decide) (by decide) (by decide) (by decide) (by decide)
  exact absurd hblock.1 (by decide)

end LfsTool
