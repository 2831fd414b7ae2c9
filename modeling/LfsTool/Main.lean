import Mathlib.Algebra.Order.Ring.Nat
import LfsTool.Image
import LfsTool.Native
import LfsTool.Walk

/-!
# LfsTool.Main

The command line and `main`.

* `getopt`: the options in `argv`, for the option string of the program.
* `stringToSize`: `string_to_size` over `strtoul`, on a platform where `unsigned long` and `size_t`
  have 64 bits.
* `parseArgs`: the option loop and the checks after it.
* `setup`: from there to the call of `traversal`.
* `main`: the whole run. `Finished` is the exit status, and beside it what `traversal` and `unmount`
  returned on the way.
-/

namespace LfsTool

open PathSyntax WalkState

/-! ## `getopt` -/

/-- What a call of `getopt` finds: an option letter and its `optarg`; `unknown` is `'?'`. -/
inductive Opt where
  | i (optarg : CString)
  | d (optarg : CString)
  | n (optarg : CString)
  | s (optarg : CString)
  | b (optarg : CString)
  | a (optarg : CString)
  | c
  | x
  | h
  | unknown
  deriving DecidableEq

def Opt.withArg (letter : UInt8) : Option (CString → Opt) :=
  if letter = 'i'.toUInt8 then some .i
  else if letter = 'd'.toUInt8 then some .d
  else if letter = 'n'.toUInt8 then some .n
  else if letter = 's'.toUInt8 then some .s
  else if letter = 'b'.toUInt8 then some .b
  else if letter = 'a'.toUInt8 then some .a
  else none

def Opt.flag (letter : UInt8) : Opt :=
  if letter = 'c'.toUInt8 then .c
  else if letter = 'x'.toUInt8 then .x
  else if letter = 'h'.toUInt8 then .h
  else .unknown

/-- The letters behind one dash, and the option whose argument is the next string, if any. -/
def scanCluster : CString → List Opt × Option (CString → Opt)
  | [] => ([], none)
  | letter :: rest =>
    match Opt.withArg letter with
    | some opt => if rest = [] then ([], some opt) else ([opt rest], none)
    | none =>
      let (opts, pending) := scanCluster rest
      (Opt.flag letter :: opts, pending)

abbrev dash : UInt8 := '-'.toUInt8

/-- The options in the strings after `argv[0]`, and whether operands are left behind them. -/
def getopt (pending : Option (CString → Opt)) : List CString → List Opt × Bool
  | [] => (if pending.isSome then [.unknown] else [], false)
  | arg :: args =>
    match pending with
    | some opt =>
      let (opts, operands) := getopt none args
      (opt arg :: opts, operands)
    | none =>
      if arg = [dash, dash] then ([], !args.isEmpty)
      else if arg.head? = some dash ∧ arg.length > 1 then
        let (found, pending) := scanCluster arg.tail
        let (opts, operands) := getopt pending args
        (found ++ opts, operands)
      else ((getopt none args).1, true)

/-! ## `string_to_size` -/

def isSpace (c : UInt8) : Bool := c = 32 ∨ 9 ≤ c ∧ c ≤ 13

def isDigit (c : UInt8) : Bool := 48 ≤ c ∧ c ≤ 57

def digitsValue (digits : List UInt8) : Nat := digits.foldl (fun n c => 10 * n + (c.toNat - 48)) 0

/-- `strtoul` in base 10: the value, how far `endptr` is from the start, and whether `errno` is
`ERANGE`. -/
def strtoul (str : CString) : UInt64 × Nat × Bool :=
  let spaces := str.takeWhile isSpace
  let rest := str.dropWhile isSpace
  let negative := rest.head? = some '-'.toUInt8
  let signed := negative ∨ rest.head? = some '+'.toUInt8
  let digits := (if signed then rest.tail else rest).takeWhile isDigit
  let value := digitsValue digits
  let endptr := spaces.length + (if signed then 1 else 0) + digits.length
  if digits = [] then (0, 0, false)
  else if value ≥ 2 ^ 64 then (UInt64.ofNat (2 ^ 64 - 1), endptr, true)
  else (if negative then -UInt64.ofNat value else UInt64.ofNat value, endptr, false)

/-- The new `*size`, or `none` where -1 is returned and `*size` stays. -/
def stringToSize (str : CString) : Option UInt64 :=
  let (value, endptr, erange) := strtoul str
  if endptr ≠ 0 ∧ !erange then some value else none

/-! ## The options -/

inductive Action where
  | none
  | extract
  | create
  deriving DecidableEq

structure Options where
  directory : Option CString
  image : Option CString
  action : Action
  nameMax : UInt64
  ioSize : UInt64
  blockSize : UInt64
  blockCount : UInt64
  deriving DecidableEq

def Options.zero : Options := ⟨none, none, .none, 0, 0, 0, 0⟩

/-- How the reading of the command line ends early: at the label `done` with result 1, or in
`usage`. -/
inductive Stop where
  | invalid
  | usage
  deriving DecidableEq

def sizeOption (optarg : CString) (set : UInt64 → Options) : Except Stop Options :=
  match stringToSize optarg with
  | none => .error .invalid
  | some size => .ok (set size)

def parseOption (opt : Opt) (options : Options) : Except Stop Options :=
  match opt with
  | .i optarg => .ok { options with image := some optarg }
  | .d optarg => .ok { options with directory := some optarg }
  | .c => if options.action = .none then .ok { options with action := .create } else .error .invalid
  | .x => if options.action = .none then .ok { options with action := .extract } else .error .invalid
  | .n optarg => sizeOption optarg fun size => { options with nameMax := size }
  | .s optarg => sizeOption optarg fun size => { options with ioSize := size }
  | .b optarg => sizeOption optarg fun size => { options with blockSize := size }
  | .a optarg => sizeOption optarg fun size => { options with blockCount := size }
  | .h => .error .usage
  | .unknown => .error .usage

def parseOptions : List Opt → Options → Except Stop Options
  | [], options => .ok options
  | opt :: opts, options =>
    match parseOption opt options with
    | .error stop => .error stop
    | .ok options => parseOptions opts options

structure Request where
  create : Bool
  image : CString
  directory : CString
  nameMax : UInt64
  ioSize : UInt64
  blockSize : UInt64
  blockCount : UInt64
  deriving DecidableEq

def parseArgs (args : List CString) : Except Stop Request :=
  let (opts, operands) := getopt none args
  match parseOptions opts .zero with
  | .error stop => .error stop
  | .ok options =>
    if operands then .error .invalid
    else
      match options.image, options.directory with
      | none, _ => .error .invalid
      | some _, none => .error .invalid
      | some image, some directory =>
        let request (create : Bool) : Request := ⟨create, image, directory, options.nameMax,
          options.ioSize, options.blockSize, options.blockCount⟩
        match options.action with
        | .none => .error .usage
        | .extract => .ok (request false)
        | .create => .ok (request true)

/-! ## `main` -/

structure Sys (σ : Type) where
  libc : Libc σ
  stdio : Stdio σ
  lf : Lfs σ
  px : Posix σ

/-- How a run ends: with an exit status, or in a call through a NULL pointer. -/
inductive Exit where
  | status (code : Nat)
  | crash
  deriving DecidableEq

abbrev EXIT_SUCCESS : Nat := 0
abbrev EXIT_FAILURE : Nat := 1

structure Finished where
  exit : Exit
  /-- What `traversal` returned, if it was called. -/
  traversal : Option Int
  /-- What `vfs_lfs->unmount` returned, if it was called. -/
  unmount : Option Int
  deriving DecidableEq

/-- What `main` has got to before it calls `traversal`. -/
inductive Setup (σ : Type) where
  | finished (f : Finished) (w : σ)
  | mounted (request : Request) (lfs : Option Ptr) (w : σ)

section Main

variable {σ : Type} (sys : Sys σ)

/-- `main` from the label `done` on; `vfsLfs` is NULL or has the given `opaque`. `usage` exits with
the same status. -/
def mainDone (result : Nat) (vfsLfs : Option (Option Ptr)) (traversed : Option Int) (w : σ) :
    Finished × σ :=
  let exit := Exit.status (if result ≠ EXIT_SUCCESS then EXIT_FAILURE else EXIT_SUCCESS)
  match vfsLfs with
  | none => (⟨exit, traversed, none⟩, w)
  | some lfs =>
    let (err, w) := lfsUnmount sys.libc sys.lf lfs w
    (⟨exit, traversed, some err⟩, w)

/-- `main` up to the call of `traversal`. Only a create checks the result of `vfs_lfs_get`. -/
def setup (args : List CString) (w : σ) : Setup σ :=
  match parseArgs args with
  | .error .usage => .finished ⟨.status EXIT_FAILURE, none, none⟩ w
  | .error .invalid =>
    let (f, w) := mainDone sys 1 none none w
    .finished f w
  | .ok request =>
    match vfsLfsGet sys.stdio sys.lf request.image request.create request.nameMax request.ioSize
      request.blockSize request.blockCount w with
    | (none, w) =>
      if request.create then
        let (f, w) := mainDone sys 2 none none w
        .finished f w
      else .finished ⟨.crash, none, none⟩ w
    | (some c, w) =>
      let ((err, lfs), w) := lfsMount sys.libc sys.lf c w
      if err ≠ 0 then
        let (f, w) := mainDone sys 2 (some lfs) none w
        .finished f w
      else .mounted request lfs w

def transfer (fuel : Nat) (request : Request) (lfs : Option Ptr) (w : σ) :
    Option (Int × WalkState σ) :=
  let vfsLfs := vfsLfs sys.libc sys.lf lfs
  let vfsNative := vfsNative sys.libc sys.px request.directory
  if request.create then traversal sys.libc vfsNative vfsLfs fuel [slash] (.start w)
  else traversal sys.libc vfsLfs vfsNative fuel [slash] (.start w)

def main (fuel : Nat) (args : List CString) (w : σ) : Option (Finished × σ) :=
  match setup sys args w with
  | .finished f w => some (f, w)
  | .mounted request lfs w =>
    match transfer sys fuel request lfs w with
    | none => none
    | some (r, s) => some (mainDone sys EXIT_SUCCESS (some lfs) (some r) s.sys)

end Main

end LfsTool
