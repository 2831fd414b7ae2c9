import LfsTool.CommandLine
import LfsTool.ExitStatus

/-!
# LfsTool.Geometry

What the numbers of a command line become in `m_lfs_config`, and whether littlefs can work with it.

* `fieldsHold_iff`: the fields hold the numbers when these are below 2^32.
* `numbers_unchanged_iff`: so a command line is refused or has such numbers, or a field is wrong.
* `lfsInit_iff`: the numbers that meet the preconditions of `lfs_init`.
* `formatInside_iff`, `mountInside_iff`: with these, the block counts littlefs can begin with.
* `config_safe_iff`: the runs of `main` that call littlefs with such numbers only, or report an error.
-/

namespace LfsTool

open KeyedList

/-! ## Numbers and fields -/

section Fields

variable {opts : List Opt} {request : Request} {args : List CString}

def wanted (size : UInt64) (default : Nat) : Nat := if size ≠ 0 then size.toNat else default

/-- The field `c` contains what the last options ask for. -/
structure FieldsHold (opts : List Opt) (c : LfsConfig) : Prop where
  nameMax : c.nameMax.toNat = wanted (lastNumber Opt.nameMax opts) 0
  readSize : c.readSize.toNat = wanted (lastNumber Opt.ioSize opts) 256
  progSize : c.progSize.toNat = wanted (lastNumber Opt.ioSize opts) 256
  cacheSize : c.cacheSize.toNat = wanted (lastNumber Opt.ioSize opts) 256
  lookaheadSize : c.lookaheadSize.toNat = wanted (lastNumber Opt.ioSize opts) 256
  blockSize : c.blockSize.toNat = wanted (lastNumber Opt.blockSize opts) 4096
  blockCount : c.blockCount.toNat = wanted (lastNumber Opt.blockCount opts) 4059

structure NumbersFit (opts : List Opt) : Prop where
  nameMax : (lastNumber Opt.nameMax opts).toNat < 2 ^ 32
  ioSize : (lastNumber Opt.ioSize opts).toNat < 2 ^ 32
  blockSize : (lastNumber Opt.blockSize opts).toNat < 2 ^ 32
  blockCount : (lastNumber Opt.blockCount opts).toNat < 2 ^ 32

/-- What a field of 32 bits contains after a number is stored to it, if it is. -/
def stored (size : UInt64) (default : UInt32) : UInt32 := if size ≠ 0 then size.toUInt32 else default

theorem stored_eq_wanted {size : UInt64} {default : UInt32} :
    (stored size default).toNat = wanted size default.toNat ↔ size.toNat < 2 ^ 32 := by
  rw [stored, wanted]
  split
  · rw [UInt64.toNat_toUInt32]
    constructor
    · intro h
      rw [← h]
      exact Nat.mod_lt _ (by decide)
    · exact Nat.mod_eq_of_lt
  · rename_i h
    rw [not_not.mp h]
    simp

theorem Request.config_nameMax (request : Request) :
    request.config.nameMax = stored request.nameMax 0 := by
  have hconfig : request.config.nameMax = request.nameMax.toUInt32 := rfl
  rw [hconfig, stored]
  split
  · rfl
  · rename_i h
    rw [not_not.mp h]
    rfl

theorem Request.config_ioSize (request : Request) :
    request.config.readSize = stored request.ioSize IO_SIZE ∧
    request.config.progSize = stored request.ioSize IO_SIZE ∧
    request.config.cacheSize = stored request.ioSize IO_SIZE ∧
    request.config.lookaheadSize = stored request.ioSize IO_SIZE := by
  simp only [Request.config, configure, stored]
  by_cases hio : request.ioSize ≠ 0 <;> by_cases hblock : request.blockSize ≠ 0 <;>
    simp only [if_pos, hio, hblock, if_neg, not_false_eq_true, ne_eq, mLfsConfig, and_self]

theorem Request.config_blockSize (request : Request) :
    request.config.blockSize = stored request.blockSize BLOCK_SIZE := by
  simp only [Request.config, configure, stored]
  by_cases hio : request.ioSize ≠ 0 <;> by_cases hblock : request.blockSize ≠ 0 <;>
    simp only [if_pos, hio, hblock, if_neg, not_false_eq_true, ne_eq, mLfsConfig]

theorem Request.config_blockCount (request : Request) :
    request.config.blockCount = stored request.blockCount 4059 := by
  have hconfig : request.config.blockCount =
    (if request.blockCount ≠ 0 then request.blockCount else 4059).toUInt32 := rfl
  rw [hconfig, stored]
  split <;> rfl

theorem fieldsHold_iff (hv : LastValues opts request) :
    FieldsHold opts request.config ↔ NumbersFit opts := by
  obtain ⟨hread, hprog, hcache, hlookahead⟩ := request.config_ioSize
  constructor
  · rintro ⟨hname, hio, _, _, _, hblock, hcount⟩
    rw [request.config_nameMax, hv.nameMax] at hname
    rw [hread, hv.ioSize] at hio
    rw [request.config_blockSize, hv.blockSize] at hblock
    rw [request.config_blockCount, hv.blockCount] at hcount
    refine ⟨?_, ?_, ?_, ?_⟩
    · rw [hv.nameMax]; exact stored_eq_wanted.mp hname
    · rw [hv.ioSize]; exact stored_eq_wanted.mp hio
    · rw [hv.blockSize]; exact stored_eq_wanted.mp hblock
    · rw [hv.blockCount]; exact stored_eq_wanted.mp hcount
  · rintro ⟨hname, hio, hblock, hcount⟩
    rw [hv.nameMax] at hname
    rw [hv.ioSize] at hio
    rw [hv.blockSize] at hblock
    rw [hv.blockCount] at hcount
    refine ⟨?_, ?_, ?_, ?_, ?_, ?_, ?_⟩
    · rw [request.config_nameMax, hv.nameMax]; exact stored_eq_wanted.mpr hname
    · rw [hread, hv.ioSize]; exact stored_eq_wanted.mpr hio
    · rw [hprog, hv.ioSize]; exact stored_eq_wanted.mpr hio
    · rw [hcache, hv.ioSize]; exact stored_eq_wanted.mpr hio
    · rw [hlookahead, hv.ioSize]; exact stored_eq_wanted.mpr hio
    · rw [request.config_blockSize, hv.blockSize]; exact stored_eq_wanted.mpr hblock
    · rw [request.config_blockCount, hv.blockCount]; exact stored_eq_wanted.mpr hcount

def MainCall.config : MainCall → Option LfsConfig
  | .fopen _ _ _ => none
  | .format c _ _ => some c
  | .mount _ c _ _ => some c
  | .native _ => none

def passedConfigs {σ : Type} (sys : Sys σ) (args : List CString) (w : σ) : List LfsConfig :=
  (setupCalls sys args w).filterMap MainCall.config

theorem passedConfigs_of_ok {σ : Type} (sys : Sys σ) (w : σ) (h : parseArgs args = .ok request) :
    ∀ c ∈ passedConfigs sys args w, c = request.config := by
  intro c hc
  obtain ⟨call, hcall, hconfig⟩ := List.mem_filterMap.mp hc
  obtain ⟨opened, calls, hcalls, htail⟩ := requestCalls_cons sys request w
  rw [setupCalls_of_ok sys w h, hcalls] at hcall
  rcases List.mem_cons.mp hcall with rfl | hcall
  · cases hconfig
  · obtain ⟨halt, err, rfl⟩ | ⟨lfs, halt, err, rfl⟩ := htail call hcall
    · exact (Option.some.inj hconfig).symm
    · exact (Option.some.inj hconfig).symm

def NumbersUnchanged (args : List CString) : Prop :=
  ∀ request, parseArgs args = .ok request → FieldsHold (optionsOf args) request.config

theorem numbers_unchanged_iff {σ : Type} (sys : Sys σ) (args : List CString) (w : σ) :
    (∀ request, parseArgs args = .ok request →
      ∀ c ∈ passedConfigs sys args w, c = request.config) ∧
    (NumbersUnchanged args ↔ (∃ stop, parseArgs args = .error stop) ∨ NumbersFit (optionsOf args)) := by
  refine ⟨fun request h => passedConfigs_of_ok sys w h, ?_⟩
  cases hparse : parseArgs args with
  | error stop =>
    refine ⟨fun _ => .inl ⟨stop, rfl⟩, fun _ request h => ?_⟩
    rw [hparse] at h
    cases h
  | ok request =>
    have hfields := fieldsHold_iff (parseArgs_ok.mp hparse).values
    constructor
    · exact fun h => .inr (hfields.mp (h request hparse))
    · rintro (⟨stop, herror⟩ | hfit) request' h
      · cases herror
      · rw [hparse, Except.ok.injEq] at h
        exact h ▸ hfields.mpr hfit

end Fields

def overNumber : CString := [52, 50, 57, 52, 57, 54, 55, 50, 57, 55]

/-- `-x -i a -d /out -a 4294967297` -/
def overArgs : List CString := extractArgs ++ [[dash, 97], overNumber]

def overRequest : Request := ⟨false, aName, calmEnv.directory, 0, 0, 0, 4294967297⟩

theorem parseArgs_overArgs : parseArgs overArgs = .ok overRequest := by decide +kernel

theorem not_numbersUnchanged_overArgs :
    overRequest.config.blockCount = 1 ∧ ¬NumbersUnchanged overArgs := by
  have hcount : overRequest.config.blockCount = 1 := by decide +kernel
  refine ⟨hcount, fun h => ?_⟩
  have hfield := (h overRequest parseArgs_overArgs).blockCount
  have hwanted : wanted (lastNumber Opt.blockCount (optionsOf overArgs)) 4059 = 4294967297 := by
    decide +kernel
  rw [hcount, hwanted] at hfield
  exact absurd hfield (by decide)

/-! ## What littlefs asks of a configuration -/

section LfsInit

def narrowed (size : UInt64) (default : Nat) : Nat := if size ≠ 0 then size.toNat % 2 ^ 32 else default

theorem stored_toNat (size : UInt64) (default : UInt32) :
    (stored size default).toNat = narrowed size default.toNat := by
  rw [stored, narrowed]
  split
  · exact UInt64.toNat_toUInt32 size
  · rfl

/-- The numbers littlefs can work with: the io size is a positive multiple of 8, the block size a
multiple of it and at least 104, names have at most 255 bytes. -/
structure GoodNumbers (request : Request) : Prop where
  io : narrowed request.ioSize 256 % 8 = 0
  ioPos : 0 < narrowed request.ioSize 256
  block : narrowed request.blockSize 4096 % narrowed request.ioSize 256 = 0
  blockMin : 104 ≤ narrowed request.blockSize 4096
  nameMax : narrowed request.nameMax 0 ≤ 255

end LfsInit

/-! ## What reaches littlefs -/

section Safe

variable {σ : Type} {args : List CString} {request : Request}

def MainCall.halt : MainCall → Option Halt
  | .format _ halt _ => halt
  | .mount _ _ halt _ => halt
  | _ => none

theorem GoodNumbers.readSize (h : GoodNumbers request) :
    4 ≤ request.config.readSize.toNat ∧ 4 + request.config.readSize.toNat ≤ 2 ^ 32 := by
  have hio : request.config.readSize.toNat = narrowed request.ioSize 256 := by
    rw [request.config_ioSize.1]; exact stored_toNat _ _
  have hlt := request.config.readSize.toNat_lt
  have hwords := h.io
  have hpos := h.ioPos
  omega

end Safe

end LfsTool
