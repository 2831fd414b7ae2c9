import Mathlib.Algebra.Order.Ring.Nat
import Mathlib.Data.List.Flatten
import LfsTool.Lib.CStrings
import LfsTool.Vfs

/-!
# LfsTool.Joining

`append_dir_alloc` on the bytes in memory, and chains of joined paths.

* `resultSize`, `appendDir`: the size asked of `malloc` and the three copies into the block it
  returned. `appendDir_spec`: they stay inside the block, and leave `joinPath` in it.
* `chainPath names`: the path the walk forms for the entry reached from the root by `names`. Its
  components are those of the names; names without slashes that are not empty can be read off it.
-/

namespace LfsTool

open CStrings PathSyntax

/-! ## `append_dir_alloc` in memory -/

def resultSize (dir path : List UInt8) : Option UInt64 :=
  match strlen dir, strlen path, strlen [slash, 0] with
  | some d, some p, some one => some (UInt64.ofNat d + UInt64.ofNat p + UInt64.ofNat one + 1)
  | _, _, _ => none

/-- The copies into `result`, the block returned by `malloc`; `none` when one leaves its array. -/
def appendDir (dir path result : List UInt8) : Option (List UInt8) :=
  match strlen dir, strcpy result dir with
  | some n, some result =>
    if n > 0 ∧ dir[n - 1]? ≠ some slash then
      match strcat result [slash, 0] with
      | some result => strcat result path
      | none => none
    else strcat result path
  | _, _ => none

section Memory

variable {dirArray pathArray dir path : List UInt8}

theorem cstr_of_holds {a s : List UInt8} (h : Holds a s) : cstr a = s := by
  obtain ⟨rest, rfl⟩ := h.starts
  rw [cstr_append (by rfl)]
  exact cstr_of_nul_not_mem h.no_nul

theorem resultSize_eq (hd : Holds dirArray dir) (hp : Holds pathArray path) :
    resultSize dirArray pathArray = some (UInt64.ofNat (dir.length + path.length + 1 + 1)) := by
  simp only [resultSize, hd.strlen, hp.strlen, UInt64.ofNat_add]
  rfl

theorem getLast?_of_holds (hd : Holds dirArray dir) (h : dir.length > 0) :
    dirArray[dir.length - 1]? = dir.getLast? := by
  obtain ⟨rest, rfl⟩ := hd.starts
  rw [List.getElem?_append_left (by omega), List.getLast?_eq_getElem?]

theorem appendDir_spec (hd : Holds dirArray dir) (hp : Holds pathArray path) {block : List UInt8}
    (hblock : dir.length + path.length + 1 + 1 ≤ block.length) :
    ∃ result, appendDir dirArray pathArray block = some result ∧ Holds result (joinPath dir path) ∧
      result.length = block.length := by
  have hfits : dir.length + 1 ≤ block.length := by omega
  obtain ⟨r₁, hcpy, hr₁, hlen₁⟩ := hd.strcpy hfits
  unfold appendDir joinPath
  simp only [hd.strlen, hcpy]
  by_cases hsep : dir.length > 0 ∧ dir.getLast? ≠ some slash
  · have hsep' : dir.length > 0 ∧ dirArray[dir.length - 1]? ≠ some slash := by
      rw [getLast?_of_holds hd hsep.1]
      exact hsep
    obtain ⟨r₂, hcat, hr₂, hlen₂⟩ :=
      hr₁.strcat (holds_append_nul (s := [slash]) (by decide)) (by simp only [List.length_singleton]; omega)
    obtain ⟨r₃, hcat', hr₃, hlen₃⟩ := hr₂.strcat hp (by
      rw [List.length_append, List.length_singleton]
      omega)
    rw [if_pos hsep, if_pos hsep']
    have hcat₂ : strcat r₁ [slash, 0] = some r₂ := hcat
    simp only [hcat₂]
    exact ⟨r₃, hcat', hr₃, by omega⟩
  · have hsep' : ¬(dir.length > 0 ∧ dirArray[dir.length - 1]? ≠ some slash) := by
      rintro ⟨hpos, hlast⟩
      rw [getLast?_of_holds hd hpos] at hlast
      exact hsep ⟨hpos, hlast⟩
    obtain ⟨r₂, hcat, hr₂, hlen₂⟩ := hr₁.strcat hp (by omega)
    rw [if_neg hsep, if_neg hsep']
    exact ⟨r₂, hcat, hr₂, by omega⟩

/-- What `append_dir_alloc` returns, in terms of the one call of `malloc` it makes. -/
theorem appendDirAlloc_eq {σ : Type} (libc : Libc σ) (dir path : CString) (w : σ) :
    appendDirAlloc libc dir path w =
      (libc.malloc (dir.length + path.length + 1 + 1) w).map
        (Option.map (⟨·, joinPath dir path⟩)) id := by
  simp only [appendDirAlloc]
  rcases libc.malloc (dir.length + path.length + 1 + 1) w with ⟨_ | ptr, w₁⟩ <;> rfl

end Memory

/-! ## Chains of entries -/

/-- The path of the entry reached from `/` by these names. -/
def chainPath (names : List Name) : CString := names.foldl joinPath [slash]

theorem chainPath_concat (names : List Name) (n : Name) :
    chainPath (names ++ [n]) = joinPath (chainPath names) n := by
  rw [chainPath, List.foldl_append]
  rfl

theorem components_foldl_joinPath (path : CString) (names : List Name) :
    components (names.foldl joinPath path) = components path ++ names.flatMap components := by
  induction names generalizing path with
  | nil => simp
  | cons n names ih =>
    rw [List.foldl_cons, ih, components_joinPath, List.flatMap_cons, List.append_assoc]

theorem components_chainPath (names : List Name) :
    components (chainPath names) = names.flatMap components :=
  components_foldl_joinPath [slash] names

theorem flatMap_components {names : List Name} (h : ∀ n ∈ names, n ≠ [] ∧ slash ∉ n) :
    names.flatMap components = names := by
  induction names with
  | nil => rfl
  | cons n names ih =>
    have hn := h n (List.mem_cons_self ..)
    rw [List.flatMap_cons, components_name hn.1 hn.2,
      ih fun m hm => h m (List.mem_cons_of_mem _ hm)]
    rfl

theorem chainPath_injective {names names' : List Name} (h : ∀ n ∈ names, n ≠ [] ∧ slash ∉ n)
    (h' : ∀ n ∈ names', n ≠ [] ∧ slash ∉ n) {dir : CString}
    (heq : joinPath dir (chainPath names) = joinPath dir (chainPath names')) : names = names' := by
  have hcomponents := congrArg components heq
  rw [components_joinPath, components_joinPath, components_chainPath, components_chainPath,
    flatMap_components h, flatMap_components h'] at hcomponents
  exact List.append_cancel_left hcomponents

end LfsTool
