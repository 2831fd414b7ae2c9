import Mathlib.Data.FinEnum
import LfsTool.Main

/-!
# LfsTool.Numbers

The strings `string_to_size` takes for a number.

* `IsSize`: a decimal size: digits and nothing else, below 2^64.
* `numberDigits`: the digits `strtoul` reads, behind white space and a sign and up to the next other
  byte. `stringToSize_eq` says what becomes of them.
* `decimalOnly_iff`: the function accepts decimal sizes only, unless there is more in the string than
  the number read.
-/

namespace LfsTool

/-- `string_to_size(str, &size)`: the result, and the contents of `size` afterwards. -/
def sizeCall (str : CString) (size : UInt64) : Int × UInt64 :=
  match stringToSize str with
  | some value => (0, value)
  | none => (-1, size)

def IsSize (str : CString) : Prop :=
  str ≠ [] ∧ (∀ c ∈ str, isDigit c = true) ∧ digitsValue str < 2 ^ 64

instance (str : CString) : Decidable (IsSize str) := by unfold IsSize; infer_instance

/-- A call with the result `r` takes `str` for a number when it is a size, and for that size. -/
structure DecimalOnly (str : CString) (size : UInt64) (r : Int × UInt64) : Prop where
  accepts : r.1 = 0 ↔ IsSize str
  value : IsSize str → r.2.toNat = digitsValue str
  rejects : ¬IsSize str → r = (-1, size)

def afterSpaces (str : CString) : CString := str.dropWhile isSpace

abbrev Negative (str : CString) : Prop := (afterSpaces str).head? = some '-'.toUInt8

abbrev Signed (str : CString) : Prop :=
  Negative str ∨ (afterSpaces str).head? = some '+'.toUInt8

def numberDigits (str : CString) : List UInt8 :=
  (if Signed str then (afterSpaces str).tail else afterSpaces str).takeWhile isDigit

/-- The string is taken for a number, and the number is not all of it. -/
def TakesMore (str : CString) : Prop :=
  numberDigits str ≠ [] ∧ digitsValue (numberDigits str) < 2 ^ 64 ∧ numberDigits str ≠ str

section Numbers

variable {str : CString}

theorem stringToSize_eq (str : CString) : stringToSize str =
    if numberDigits str = [] ∨ 2 ^ 64 ≤ digitsValue (numberDigits str) then none
    else some (if Negative str then -UInt64.ofNat (digitsValue (numberDigits str))
      else UInt64.ofNat (digitsValue (numberDigits str))) := by
  have hstrtoul : strtoul str =
      if numberDigits str = [] then (0, 0, false)
      else if digitsValue (numberDigits str) ≥ 2 ^ 64 then
        (UInt64.ofNat (2 ^ 64 - 1), (str.takeWhile isSpace).length + (if Signed str then 1 else 0) +
          (numberDigits str).length, true)
      else (if Negative str then -UInt64.ofNat (digitsValue (numberDigits str))
        else UInt64.ofNat (digitsValue (numberDigits str)),
        (str.takeWhile isSpace).length + (if Signed str then 1 else 0) +
          (numberDigits str).length, false) := rfl
  rw [stringToSize, hstrtoul]
  by_cases hnil : numberDigits str = []
  · rw [if_pos hnil, if_pos (.inl hnil)]
    rfl
  · have hend : (str.takeWhile isSpace).length + (if Signed str then 1 else 0) +
        (numberDigits str).length ≠ 0 := by
      have hlen := List.length_pos_of_ne_nil hnil
      omega
    by_cases hbig : digitsValue (numberDigits str) ≥ 2 ^ 64
    · have hrefused : numberDigits str = [] ∨ 2 ^ 64 ≤ digitsValue (numberDigits str) := .inr hbig
      rw [if_neg hnil, if_pos hbig, if_pos hrefused]
      exact if_neg fun h => absurd h.2 (by decide)
    · have hnot : ¬(numberDigits str = [] ∨ 2 ^ 64 ≤ digitsValue (numberDigits str)) :=
        not_or.mpr ⟨hnil, hbig⟩
      rw [if_neg hnil, if_neg hbig, if_neg hnot]
      exact if_pos ⟨hend, rfl⟩

theorem not_isSpace_of_isDigit {c : UInt8} (h : isDigit c = true) : isSpace c = false := by
  have h48 : (48 : UInt8).toNat ≤ c.toNat := UInt8.le_iff_toNat_le.mp (of_decide_eq_true h).1
  refine decide_eq_false ?_
  rintro (rfl | ⟨_, h13⟩)
  · exact absurd h48 (by decide)
  · have h13' : c.toNat ≤ (13 : UInt8).toNat := UInt8.le_iff_toNat_le.mp h13
    exact absurd (h48.trans h13') (by decide)

theorem afterSpaces_of_digits (h : ∀ c ∈ str, isDigit c = true) : afterSpaces str = str := by
  cases str with
  | nil => rfl
  | cons c str =>
    rw [afterSpaces, List.dropWhile_cons, not_isSpace_of_isDigit (h c (List.mem_cons_self ..))]
    rfl

theorem not_signed_of_digits (h : ∀ c ∈ str, isDigit c = true) : ¬Signed str := by
  rw [Signed, Negative, afterSpaces_of_digits h]
  cases str with
  | nil => simp
  | cons c str =>
    have hc := h c (List.mem_cons_self ..)
    have hminus : c ≠ '-'.toUInt8 := by rintro rfl; exact absurd hc (by decide)
    have hplus : c ≠ '+'.toUInt8 := by rintro rfl; exact absurd hc (by decide)
    simp [hminus, hplus]

/-- The number is the whole string when that is made of digits. -/
theorem numberDigits_eq_self : numberDigits str = str ↔ ∀ c ∈ str, isDigit c = true := by
  constructor
  · intro h c hc
    rw [← h] at hc
    exact List.mem_takeWhile_imp hc
  · intro h
    rw [numberDigits, if_neg (not_signed_of_digits h), afterSpaces_of_digits h]
    exact List.takeWhile_eq_self_iff.mpr h

theorem isSize_iff : IsSize str ↔
    numberDigits str ≠ [] ∧ digitsValue (numberDigits str) < 2 ^ 64 ∧ numberDigits str = str := by
  constructor
  · rintro ⟨hnil, hdigits, hvalue⟩
    rw [numberDigits_eq_self.mpr hdigits]
    exact ⟨hnil, hvalue, rfl⟩
  · rintro ⟨hnil, hvalue, hself⟩
    rw [hself] at hnil hvalue
    exact ⟨hnil, numberDigits_eq_self.mp hself, hvalue⟩

theorem stringToSize_of_isSize (h : IsSize str) :
    stringToSize str = some (UInt64.ofNat (digitsValue str)) := by
  obtain ⟨hnil, hvalue, hself⟩ := isSize_iff.mp h
  have hnegative : ¬Negative str := fun hneg => not_signed_of_digits h.2.1 (.inl hneg)
  rw [stringToSize_eq, if_neg (not_or.mpr ⟨hnil, Nat.not_le.mpr hvalue⟩),
    if_neg hnegative, hself]

theorem sizeCall_of_isSize (h : IsSize str) (size : UInt64) :
    sizeCall str size = (0, UInt64.ofNat (digitsValue str)) := by
  rw [sizeCall, stringToSize_of_isSize h]

end Numbers

theorem decimalOnly_iff (str : CString) (size : UInt64) :
    DecimalOnly str size (sizeCall str size) ↔ ¬TakesMore str := by
  constructor
  · rintro hcall ⟨hnil, hvalue, hself⟩
    have haccepted : (sizeCall str size).1 = 0 := by
      rw [sizeCall, stringToSize_eq,
        if_neg (not_or.mpr ⟨hnil, Nat.not_le.mpr hvalue⟩)]
    exact hself (isSize_iff.mp (hcall.accepts.mp haccepted)).2.2
  · intro hmore
    by_cases hsize : IsSize str
    · rw [sizeCall_of_isSize hsize]
      refine ⟨⟨fun _ => hsize, fun _ => rfl⟩, fun _ => ?_, fun h => absurd hsize h⟩
      exact UInt64.toNat_ofNat_of_lt' hsize.2.2
    · have hrefused : numberDigits str = [] ∨ 2 ^ 64 ≤ digitsValue (numberDigits str) := by
        by_contra hnot
        rw [not_or, Nat.not_le] at hnot
        by_cases hself : numberDigits str = str
        · exact hsize (isSize_iff.mpr ⟨hnot.1, hnot.2, hself⟩)
        · exact hmore ⟨hnot.1, hnot.2, hself⟩
      have hcall : sizeCall str size = (-1, size) := by
        rw [sizeCall, stringToSize_eq, if_pos hrefused]
      rw [hcall]
      have hone : ((-1 : Int), size).1 ≠ 0 := Int.neg_ne_zero.mpr Int.one_ne_zero
      exact ⟨⟨fun h => absurd h hone, fun h => absurd h hsize⟩, fun h => absurd h hsize,
        fun _ => rfl⟩

abbrev fourK : CString := ['4'.toUInt8, 'k'.toUInt8]

/-- A size with a unit is the size without it. -/
theorem not_decimalOnly_fourK : sizeCall fourK 0 = (0, 4) ∧ ¬DecimalOnly fourK 0 (sizeCall fourK 0) := by
  have hcall : sizeCall fourK 0 = (0, 4) := by decide +kernel
  refine ⟨hcall, fun h => ?_⟩
  have hsize : IsSize fourK := h.accepts.mp (by rw [hcall])
  exact absurd hsize (by decide +kernel)

end LfsTool
