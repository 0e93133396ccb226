import OlliOS.Elf
import OlliOS.Kstd.UnorderedMap
import OlliOS.Vfs

/-!
# Kernel modules

`link_as_kernel_module` links a relocatable file in the buffer that it was read to. A section header is the
address where it stands, and is read anew wherever the code reads it. `areas` are the addresses that
`bindFirstFreeVirtualPages` returns, one for each call; the pages there are cleared. A string that never ends
gives `none`, and so does a call for more areas than there are.
-/

namespace OlliOS

open Words

structure SymbolMapEntry where
  offset : UInt32
  deriving DecidableEq

structure SymbolMap where
  symbolsMap : UnorderedMap CStr SymbolMapEntry

def SymbolMap.findSymbol (map : SymbolMap) (name : CStr) : Option SymbolMapEntry :=
  if map.symbolsMap.count hashString name = 0 then none else map.symbolsMap.lookup hashString name

namespace Elf

def stringAt (m : Memory) : ℕ → UInt32 → Option CStr
  | 0, _ => none
  | n + 1, a => if m a = 0 then some [] else (stringAt m n (a + 1)).map (m a :: ·)

def nobits : UInt32 := 8

def rel : UInt32 := 9

inductive RelocationType
  | none
  | abs32
  | pc32
  | got32
  | plt32
  | gotoff
  | gotpc
  deriving DecidableEq

def RelocationType.ofByte (b : UInt32) : Option RelocationType :=
  if b = 0 then some .none
  else if b = 1 then some .abs32
  else if b = 2 then some .pc32
  else if b = 3 then some .got32
  else if b = 4 then some .plt32
  else if b = 9 then some .gotoff
  else if b = 10 then some .gotpc
  else Option.none

/-- The memory, the areas to be bound next, and the tables of the `elf` object; `_GOT` is in the
memory. -/
structure Linker where
  mem : Memory
  areas : List UInt32
  gotCount : UInt32
  gotIndex : CStr → UInt32

variable (header got : UInt32) (map : SymbolMap)

section Headers

variable (m : Memory)

def sectionHeaderTableEntries : UInt32 := load16 m (header + 48)

def getSectionHeader (index : UInt32) : UInt32 := header + load m (header + 32) + index * 40

def sectionType (section_ : UInt32) : UInt32 := load m (section_ + 4)

def sectionFlags (section_ : UInt32) : UInt32 := load m (section_ + 8)

def sectionOffset (section_ : UInt32) : UInt32 := load m (section_ + 16)

def sectionSize (section_ : UInt32) : UInt32 := load m (section_ + 20)

def linkIndex (section_ : UInt32) : UInt32 := load m (section_ + 24)

def sectionInfo (section_ : UInt32) : UInt32 := load m (section_ + 28)

def symbolAt (section_ index : UInt32) : UInt32 := header + sectionOffset m section_ + index * 16

def getSymbolName (section_ symbolIndex : UInt32) : Option CStr :=
  let nameHeader := getSectionHeader header m (linkIndex m section_)
  stringAt m 0x100000000 (header + sectionOffset m nameHeader + load m (symbolAt header m section_ symbolIndex))

def getSymbolValue (section_ symbolIndex : UInt32) : Option (Option UInt32) :=
  let symbol := symbolAt header m section_ symbolIndex
  let sectionIndex := load16 m (symbol + 14)
  if sectionIndex = 0 then do
    let name ← getSymbolName header m section_ symbolIndex
    return (map.findSymbol name).map (·.offset)
  else
    let ndxHeader := getSectionHeader header m sectionIndex
    some (some (header + sectionOffset m ndxHeader + load m (symbol + 4)))

def symtab : UInt32 := 2

def entrySize (section_ : UInt32) : UInt32 := load m (section_ + 36)

/-- `strcmp` of the name and the string at `a` returns 0. -/
def hasName (a : UInt32) (name : CStr) : Bool :=
  (List.range (name.length + 1)).all fun i => m (a + UInt32.ofNat i) == name.getD i 0

/-- `get_symbol_value` with a name, for a program. A symbol table with entries of size 0 is a division by
zero. -/
def getNamedValue (name : CStr) : Option (Option UInt32) :=
  (List.range' 0 (sectionHeaderTableEntries header m).toNat).findSomeM? fun i =>
    let section_ := getSectionHeader header m (UInt32.ofNat i)
    if sectionType m section_ ≠ symtab then some none
    else if entrySize m section_ = 0 then none
    else some <| (List.range' 0 (sectionSize m section_ / entrySize m section_).toNat).findSome? fun i =>
      let symbol := symbolAt header m section_ (UInt32.ofNat i)
      let nameHeader := getSectionHeader header m (linkIndex m section_)
      if hasName m (header + sectionOffset m nameHeader + load m symbol) name then some (load m (symbol + 4))
      else none

end Headers

section Loops

/-- One pass of a loop that returns -1 as soon as one of its calls does not return 0. -/
def forPass (bound : Linker → UInt32) (body : UInt32 → Linker → Option (Int × Linker)) :
    UInt32 × Linker → (UInt32 × Linker) ⊕ Option (Int × Linker)
  | (i, s) =>
    if i < bound s then
      match body i s with
      | none => .inr none
      | some (result, s) => if result ≠ 0 then .inr (some (-1, s)) else .inl (i + 1, s)
    else .inr (some (0, s))

/-- The bound is a word, and is read in each pass. -/
def forLoop (bound : Linker → UInt32) (body : UInt32 → Linker → Option (Int × Linker)) (s : Linker) :
    Option (Int × Linker) :=
  (Loop.run (forPass bound body) 0x100000000 (0, s)).join

end Loops

section Nobits

def clear (m : Memory) (a : UInt32) (n : ℕ) : Memory := fun x => if InBytes a n x then 0 else m x

def nobitsPages (size : UInt32) : UInt32 :=
  if size % 0x1000 ≠ 0 then size / 0x1000 + 1 else size / 0x1000

def allocateNobits (section_ : UInt32) (s : Linker) : Option (Int × Linker) :=
  let size := sectionSize s.mem section_
  if size = 0 then some (0, s)
  else if sectionFlags s.mem section_ &&& 0x02 ≠ 0 then
    match s.areas with
    | [] => none
    | mem :: areas =>
      let m := clear s.mem mem ((nobitsPages size).toNat * 0x1000)
      let m := clear m mem size.toNat
      some (0, { s with mem := store m (section_ + 16) (mem - header), areas := areas })
  else some (0, s)

def allocateAll : Linker → Option (Int × Linker) :=
  forLoop (fun s => sectionHeaderTableEntries header s.mem) fun i s =>
    let section_ := getSectionHeader header s.mem i
    if sectionType s.mem section_ = nobits then allocateNobits header section_ s else some (0, s)

end Nobits

section Relocate

def Linker.put (s : Linker) (ref value : UInt32) : Linker := { s with mem := store s.mem ref value }

def relocateGot32 (s : Linker) (ref symval : UInt32) (name : CStr) : Linker :=
  if s.gotIndex name = 0 then
    let count := s.gotCount + 1
    let s := s.put (got + count * 4) symval
    let s := s.put ref (count * 4 + load s.mem ref)
    { s with gotCount := count, gotIndex := fun n => if n = name then count else s.gotIndex n }
  else s.put ref (s.gotIndex name * 4 + load s.mem ref)

def refAddress (m : Memory) (section_ offset : UInt32) : UInt32 :=
  header + sectionOffset m (getSectionHeader header m (sectionInfo m section_)) + offset

def relocateEntry (section_ offset info : UInt32) (s : Linker) : Option (Int × Linker) :=
  let ref := refAddress header s.mem section_ offset
  if info >>> 8 ≠ 0 then
    if RelocationType.ofByte (info % 0x100) = some .gotpc then
      some (0, s.put ref (got + load s.mem ref - ref))
    else do
      let symbols := getSectionHeader header s.mem (linkIndex s.mem section_)
      match ← getSymbolValue header map s.mem symbols (info >>> 8) with
      | none => some (-1, s)
      | some symval =>
        match RelocationType.ofByte (info % 0x100) with
        | some .none => some (0, s)
        | some .abs32 => some (0, s.put ref (symval + load s.mem ref))
        | some .pc32 => some (0, s.put ref (symval + load s.mem ref - ref))
        | some .plt32 => some (0, s.put ref (symval + load s.mem ref - ref))
        | some .gotoff => some (0, s.put ref (symval + load s.mem ref - got))
        | some .got32 =>
          if s.gotCount + 1 ≥ 4096 then some (-1, s)
          else do
            let name ← getSymbolName header s.mem symbols (info >>> 8)
            return (0, relocateGot32 got s ref symval name)
        | _ => some (-1, s)
  else some (0, s)

def relocateSection (section_ : UInt32) (s : Linker) : Option (Int × Linker) :=
  let relocation := header + sectionOffset s.mem section_
  forLoop (fun s => sectionSize s.mem section_ / 8) (fun i s =>
    relocateEntry header got map section_ (load s.mem (relocation + i * 8)) (load s.mem (relocation + i * 8 + 4)) s) s

def relocateAll : Linker → Option (Int × Linker) :=
  forLoop (fun s => sectionHeaderTableEntries header s.mem) fun i s =>
    let section_ := getSectionHeader header s.mem i
    if sectionType s.mem section_ = rel then relocateSection header got map section_ s
    else some (0, s)

def linkAsKernelModule (s : Linker) : Option (Int × Linker) := do
  let (_, s) ← allocateAll header s
  relocateAll header got map s

end Relocate

end Elf

end OlliOS
