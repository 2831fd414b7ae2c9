import LfsTool.Lfs

/-!
# LfsTool.Image

The image file of `vfs_lfs.c`, over the stdio functions that work on it (`Stdio`).

* `fsRead`, `fsProg`, `fsErase`, `fsSync`: the callbacks littlefs reaches the image through.
* `vfsLfsGet`: `vfs_lfs_get`, which opens the image and, when it is to be created, fills and formats
  it. `configure` is what it makes of `m_lfs_config`.

The products of `uint32_t` values are taken in `UInt32`, as in C, and converted to `size_t` afterwards.
-/

namespace LfsTool

inductive FopenMode where
  | rb
  | wPlusB
  deriving DecidableEq

/-- The stdio functions, on the one file the program opens. -/
structure Stdio (σ : Type) where
  /-- Whether the pointer returned is not NULL. -/
  fopen : CString → FopenMode → σ → Bool × σ
  /-- with `SEEK_SET` -/
  fseek : Nat → σ → Int × σ
  fread : Nat → σ → List UInt8 × σ
  /-- The number of bytes written. -/
  fwrite : List UInt8 → σ → Nat × σ
  fputc : UInt8 → σ → Int × σ
  fflush : σ → Int × σ

abbrev EOF : Int := -1

section Image

variable {σ : Type} (stdio : Stdio σ)

/-! ## The block device -/

def blockOffset (c : LfsConfig) (block off : UInt32) : UInt64 := (c.blockSize * block + off).toUInt64

def eraseOffset (c : LfsConfig) (block : UInt32) : UInt64 := (c.blockSize * block).toUInt64

/-- The result, and the new contents of the buffer. -/
def fsRead (c : LfsConfig) (block off : UInt32) (buffer : List UInt8) (size : UInt32) (w : σ) :
    (Int × List UInt8) × σ :=
  let (err, w) := stdio.fseek (blockOffset c block off).toNat w
  if err ≠ 0 then ((-1, buffer), w)
  else
    let (bytes, w) := stdio.fread size.toNat w
    let buffer := bytes ++ buffer.drop bytes.length
    if bytes.length ≠ size.toNat then ((-1, buffer), w) else ((0, buffer), w)

def fsProg (c : LfsConfig) (block off : UInt32) (buffer : List UInt8) (size : UInt32) (w : σ) :
    Int × σ :=
  let (err, w) := stdio.fseek (blockOffset c block off).toNat w
  if err ≠ 0 then (-1, w)
  else
    let (bytes, w) := stdio.fwrite (buffer.take size.toNat) w
    if bytes ≠ size.toNat then (-1, w) else (0, w)

/-- The loops of `fs_erase` and `vfs_lfs_get` that put `0xff` a number of times. -/
def fillLoop : Nat → σ → Bool × σ
  | 0, w => (true, w)
  | n + 1, w =>
    let (c, w) := stdio.fputc 0xff w
    if c ≠ 0xff then (false, w) else fillLoop n w

def fsErase (c : LfsConfig) (block : UInt32) (w : σ) : Int × σ :=
  let (err, w) := stdio.fseek (eraseOffset c block).toNat w
  if err ≠ 0 then (-1, w)
  else
    let (filled, w) := fillLoop stdio c.blockSize.toNat w
    if filled then (0, w) else (-1, w)

def fsSync (w : σ) : Int × σ :=
  let (r, w) := stdio.fflush w
  (if r ≠ EOF then 0 else -1, w)

/-! ## `vfs_lfs_get` -/

abbrev BLOCK_SIZE : UInt32 := 4096
abbrev IO_SIZE : UInt32 := 256

def mLfsConfig : LfsConfig where
  readSize := IO_SIZE
  progSize := IO_SIZE
  blockSize := BLOCK_SIZE
  blockCount := 0
  blockCycles := -1
  cacheSize := IO_SIZE
  lookaheadSize := IO_SIZE
  nameMax := 0
  fileMax := 0
  attrMax := 0

def configure (nameMax ioSize blockSize blockCount : UInt64) (c : LfsConfig) : LfsConfig :=
  let c :=
    if ioSize ≠ 0 then
      { c with
        readSize := ioSize.toUInt32, progSize := ioSize.toUInt32, cacheSize := ioSize.toUInt32,
        lookaheadSize := ioSize.toUInt32 }
    else c
  let c := if blockSize ≠ 0 then { c with blockSize := blockSize.toUInt32 } else c
  let blockCount := if blockCount ≠ 0 then blockCount else 4059
  { c with blockCount := blockCount.toUInt32, nameMax := nameMax.toUInt32 }

/-- `i < m_lfs_config.block_count * m_lfs_config.block_size` bounds the loop. -/
def prefillSize (c : LfsConfig) : UInt64 := (c.blockCount * c.blockSize).toUInt64

/-- Whether the pointer returned is not NULL. The configuration is `configure` of the arguments and
the static one in any case but a failing `fopen`. -/
def vfsLfsGet (lf : Lfs σ) (image : CString) (write : Bool)
    (nameMax ioSize blockSize blockCount : UInt64) (w : σ) : Option LfsConfig × σ :=
  let (opened, w) := stdio.fopen image (if write then .wPlusB else .rb) w
  if !opened then (none, w)
  else
    let c := configure nameMax ioSize blockSize blockCount mLfsConfig
    if write then
      let (filled, w) := fillLoop stdio (prefillSize c).toNat w
      if !filled then (none, w)
      else
        let (err, w) := lf.format c w
        if err ≠ 0 then (none, w) else (some c, w)
    else (some c, w)

end Image

end LfsTool
