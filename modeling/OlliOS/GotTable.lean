import OlliOS.ModuleImage

/-!
# The global offset table

An entry of type `R_386_GOT32` asks for a slot of `_GOT` with the value of its symbol, and gets the offset
of the slot. The linker takes a slot for each name: `_GotIndex` leads from names to slots, with 0 for a
name that has none. The entries of an image may be applied in any order, and several times.
-/

namespace OlliOS.Elf

open Words

variable {header got : UInt32}

def InGot (got x : UInt32) : Prop := InBytes got (4 * 4096) x

/-- An image whose entries for `_GOT` can be read, with names in its string tables. Their words are apart
from `_GOT` and from the tables. -/
structure GotImage (header got : UInt32) where
  mem : Memory
  readable : ∀ e : Entry, e.IsIn header mem → e.type header mem = some .got32 → e.Readable header mem
  named : ∀ e : Entry, e.IsIn header mem → e.type header mem = some .got32 → ∃ name, e.Named header mem name
  apart : ∀ e : Entry, e.IsIn header mem → e.type header mem = some .got32 →
    ∀ x, InBytes (e.target header mem) 4 x → ¬ InTables header mem x ∧ ¬ InGot got x
  table : ∀ x, InGot got x → ¬ InTables header mem x

namespace GotImage

variable (image : GotImage header got) (map : SymbolMap)

structure GotEntry extends Entry where
  isIn : toEntry.IsIn header image.mem
  type : toEntry.type header image.mem = some .got32

variable {image}

namespace GotEntry

variable (e e' : image.GotEntry)

def Named (name : CStr) : Prop := e.toEntry.Named header image.mem name

def Symbol (S : UInt32) : Prop := e.toEntry.Symbol header map image.mem S

def target : UInt32 := e.toEntry.target header image.mem

structure SameSymbol : Prop where
  table : symbolTable header image.mem e.table = symbolTable header image.mem e'.table
  index : e.info header image.mem >>> 8 = e'.info header image.mem >>> 8

def relocate (s : Linker) : Option (Int × Linker) :=
  relocateEntry header got map (e.section_ header image.mem) (load image.mem (e.address header image.mem))
    (e.info header image.mem) s

end GotEntry

variable (image) in
structure Run where
  linker : Linker
  served : List image.GotEntry

namespace Run

variable (image) in
def start (areas : List UInt32) : image.Run :=
  { linker := { mem := image.mem, areas := areas, gotCount := 0, gotIndex := fun _ => 0 }
    served := [] }

def next (s : image.Run) (e : image.GotEntry) (result : Int) (linker : Linker) : image.Run :=
  { linker := linker, served := if result = 0 then e :: s.served else s.served }

def HasSlot (s : image.Run) (e : image.GotEntry) : Prop := ∃ e' ∈ s.served, e'.SameSymbol e

/-- What is left of an entry: with the result 0 its word leads to a slot with the value of its symbol. No
slot that was taken changes, and the entry does not fail if its symbol has one. -/
structure Applied (s : image.Run) (e : image.GotEntry) (result : Int) (linker : Linker) : Prop where
  slot : result = 0 → ∃ k : UInt32, 1 ≤ k ∧ k < 4096 ∧ load linker.mem e.target = 4 * k + load s.linker.mem e.target ∧
    ∀ S, e.Symbol map S → load linker.mem (got + 4 * k) = S
  kept : ∀ k : UInt32, 1 ≤ k → k ≤ s.linker.gotCount → load linker.mem (got + 4 * k) = load s.linker.mem (got + 4 * k)
  again : s.HasSlot e → result = 0

def Applies : image.Run → List image.GotEntry → Prop
  | _, [] => True
  | s, e :: es => ∃ result linker, e.relocate map s.linker = some (result, linker) ∧
    s.Applied map e result linker ∧ Applies (s.next e result linker) es

def HasRoom (s : image.Run) : Prop := s.linker.gotCount + 1 < 4096

/-- While a slot is free, the entries that had the name before have its value. A slot is free if the symbol
has one. -/
structure Clear (s : image.Run) (e : image.GotEntry) : Prop where
  value : s.HasRoom → ∀ e' ∈ s.served, ∀ name, e.Named name → e'.Named name →
    ∀ S S', e.Symbol map S → e'.Symbol map S' → S = S'
  room : s.HasSlot e → s.HasRoom

def AllClear : image.Run → List image.GotEntry → Prop
  | _, [] => True
  | s, e :: es => s.Clear map e ∧
    ∀ result linker, e.relocate map s.linker = some (result, linker) → AllClear (s.next e result linker) es

end Run

end GotImage

end OlliOS.Elf
