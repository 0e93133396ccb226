import Mathlib.Algebra.Group.Nat.Defs
import Mathlib.Logic.Function.Iterate

/-!
# Transfers with ATA drives

A driver asks for whole sectors or blocks, takes the words of the data port as two bytes each, and
picks those that the caller wants.
-/

namespace OlliOS.Ata

/-- A drive with the byte that is next at its data port and the number of those left of the command; and the
caller's memory with the counters of the driver. -/
structure Transfer where
  disk : ℕ → UInt8
  next : ℕ
  left : ℕ
  data : ℕ → UInt8
  i : ℕ := 0
  readBytes : ℕ := 0

def readByte (first stop : ℕ) (t : Transfer) : Transfer :=
  { t with
    next := t.next + 1
    left := t.left - 1
    data := if first ≤ t.i ∧ t.i < stop then Function.update t.data (t.i - first) (t.disk t.next) else t.data
    i := t.i + 1
    readBytes := if first ≤ t.i ∧ t.i < stop then t.readBytes + 1 else t.readBytes }

def writeByte (first stop : ℕ) (t : Transfer) : Transfer :=
  { t with
    disk := Function.update t.disk t.next (if first ≤ t.i ∧ t.i < stop then t.data (t.i - first) else 0)
    next := t.next + 1
    left := t.left - 1
    i := t.i + 1 }

variable (disk data : ℕ → UInt8) (amount offset : UInt32)

namespace Pio

def sectorCount : ℕ :=
  let count := (amount + 511).toNat / 512 + if 0 < offset.toNat % 512 then 1 else 0
  if 256 ≤ count then 256 else count

/-- `none` if the drive has no data left: the driver then waits for it forever. -/
def sectors (byte : Transfer → Transfer) : ℕ → Transfer → Option Transfer
  | 0, t => some t
  | count + 1, t => if t.left = 0 then none else sectors byte count ((byte^[2])^[256] t)

def command (byte : ℕ → ℕ → Transfer → Transfer) : Option Transfer :=
  let count := sectorCount amount offset
  let seccount := if 256 ≤ count then 0 else count
  let first := offset.toNat % 512
  -- with `i - first < amount` the sum does not wrap
  sectors (byte first (first + amount.toNat)) count
    { disk, next := 512 * (offset.toNat / 512), left := 512 * if seccount = 0 then 256 else seccount, data }

def read : Option Transfer := command disk data amount offset readByte

def write : Option Transfer := command disk data (if amount % 2 = 1 then amount - 1 else amount) offset writeByte

/-- The number of bytes that one command is to transfer. -/
def served : ℕ := min amount.toNat (131072 - offset.toNat % 512)

structure Reads (t : Transfer) : Prop where
  taken : t.left = 0
  stored : t.data = fun p => if p < served amount offset then disk (offset.toNat + p) else data p
  returned : t.readBytes = served amount offset

structure Writes (t : Transfer) : Prop where
  written : t.disk = fun p =>
    if offset.toNat ≤ p ∧ p < offset.toNat + served amount offset then data (p - offset.toNat) else disk p
  returned : t.readBytes = served amount offset
  readBack : ∀ memory, ∃ u, read t.disk memory amount offset = some u ∧ ∀ p < served amount offset, u.data p = data p

end Pio

namespace Packet

def actualAmount : UInt32 :=
  let actual := amount + offset % 2048
  if actual % 2048 ≠ 0 then actual + (2048 - actual % 2048) else actual

/-- The limit in the registers `Lba1` and `Lba2`. -/
def limit : ℕ := (actualAmount amount offset).toNat % 256 + 256 * ((actualAmount amount offset).toNat / 256 % 256)

variable (wordcount : ℕ)

/-- The drive offers `wordcount` bytes of the blocks. -/
def read : Transfer × ℕ :=
  let skip := offset % 2048
  (((readByte skip.toNat (skip + amount).toNat)^[2])^[(wordcount + 1) / 2]
    { disk, next := 2048 * (offset.toNat / 2048), left := wordcount, data },
    if wordcount < amount.toNat then wordcount else amount.toNat)

def delivered : ℕ := min amount.toNat (wordcount - offset.toNat % 2048)

structure Delivers : Prop where
  stored : (read disk data amount offset wordcount).1.data = fun p =>
    if p < delivered amount offset wordcount then disk (offset.toNat + p) else data p
  returned : (read disk data amount offset wordcount).2 = delivered amount offset wordcount
  limited : (actualAmount amount offset).toNat < 2 ^ 16 → limit amount offset = (actualAmount amount offset).toNat

end Packet

end OlliOS.Ata
