import OlliOS.Relocation

/-!
# Images of kernel modules

What a relocatable file in memory has to be for the linker, and what its words are to become. The image is read
as it was loaded, and with its NOBITS sections bound, where `sectionOffset` leads to the area of such a
section. Ranges of bytes are taken around the end of the address space.
-/

namespace OlliOS.Elf

open Words

variable (header got : UInt32) (map : SymbolMap)

section Tables

variable (m : Memory)

def InHeaders (x : UInt32) : Prop :=
  InBytes (header + load m (header + 32)) (40 * (sectionHeaderTableEntries header m).toNat) x

def InSection (section_ x : UInt32) : Prop :=
  InBytes (header + sectionOffset m section_) (sectionSize m section_).toNat x

def IsString (a : UInt32) : CStr → Prop
  | [] => m a = 0
  | c :: str => c ≠ 0 ∧ m a = c ∧ IsString (a + 1) str

instance decidableIsString : ∀ (a : UInt32) (str : CStr), Decidable (IsString m a str)
  | a, [] => inferInstanceAs (Decidable (m a = 0))
  | a, c :: str =>
    have := decidableIsString (a + 1) str
    inferInstanceAs (Decidable (c ≠ 0 ∧ m a = c ∧ IsString m (a + 1) str))

structure IsTable (i : UInt32) : Prop where
  lt : i < sectionHeaderTableEntries header m
  type : sectionType m (getSectionHeader header m i) = rel

def symbolTable (i : UInt32) : UInt32 := getSectionHeader header m (linkIndex m (getSectionHeader header m i))

def stringTable (i : UInt32) : UInt32 := getSectionHeader header m (linkIndex m (symbolTable header m i))

/-- The bytes from which the linker learns what to do. -/
inductive InTables (x : UInt32) : Prop
  | elf : InBytes header 52 x → InTables x
  | headers : InHeaders header m x → InTables x
  | relocations (i : UInt32) : IsTable header m i → InSection header m (getSectionHeader header m i) x → InTables x
  | symbols (i : UInt32) : IsTable header m i → InSection header m (symbolTable header m i) x → InTables x
  | strings (i : UInt32) : IsTable header m i → InSection header m (stringTable header m i) x → InTables x

end Tables

section Nobits

structure Allocated (m : Memory) (i : UInt32) : Prop where
  lt : i < sectionHeaderTableEntries header m
  type : sectionType m (getSectionHeader header m i) = nobits
  size : sectionSize m (getSectionHeader header m i) ≠ 0
  flags : sectionFlags m (getSectionHeader header m i) &&& 0x02 ≠ 0

instance (m : Memory) (i : UInt32) : Decidable (Allocated header m i) :=
  decidable_of_iff (i < sectionHeaderTableEntries header m ∧ sectionType m (getSectionHeader header m i) = nobits ∧
    sectionSize m (getSectionHeader header m i) ≠ 0 ∧
    sectionFlags m (getSectionHeader header m i) &&& 0x02 ≠ 0)
    ⟨fun ⟨h₁, h₂, h₃, h₄⟩ => ⟨h₁, h₂, h₃, h₄⟩, fun h => ⟨h.lt, h.type, h.size, h.flags⟩⟩

def allocatedBelow (m : Memory) (k : ℕ) : ℕ :=
  ((List.range' 0 k).filter fun i => decide (Allocated header m (UInt32.ofNat i))).length

def areaOf (s : Linker) (i : UInt32) : Option UInt32 := s.areas[allocatedBelow header s.mem i.toNat]?

def InArea (m : Memory) (i a x : UInt32) : Prop :=
  InBytes a ((nobitsPages (sectionSize m (getSectionHeader header m i))).toNat * 0x1000) x

/-- The image can be read, and the areas that are going to be bound are apart from what the NOBITS pass
reads. -/
structure Fresh (s : Linker) : Prop where
  apart : ∀ x, InBytes header 52 x → ¬ InHeaders header s.mem x
  area : ∀ i, Allocated header s.mem i → ∃ a, areaOf header s i = some a ∧
    ∀ x, InArea header s.mem i a x → ¬ InBytes header 52 x ∧ ¬ InHeaders header s.mem x

/-- `m` is the memory of `s` with the NOBITS sections below `k` bound: their areas are zero, and
`section->offset` leads there. Nothing else differs. -/
structure Bound (s : Linker) (k : ℕ) (m : Memory) : Prop where
  area : ∀ i a, Allocated header s.mem i → i.toNat < k → areaOf header s i = some a →
    sectionOffset m (getSectionHeader header s.mem i) = a - header ∧
    ∀ x, InArea header s.mem i a x → m x = 0
  same : ∀ x, (∀ i a, Allocated header s.mem i → i.toNat < k → areaOf header s i = some a →
    ¬ InBytes (getSectionHeader header s.mem i + 16) 4 x ∧ ¬ InArea header s.mem i a x) →
    m x = s.mem x

end Nobits

structure Entry where
  table : UInt32
  number : UInt32
  deriving DecidableEq

namespace Entry

variable (m : Memory) (e : Entry)

def section_ : UInt32 := getSectionHeader header m e.table

def address : UInt32 := header + sectionOffset m (e.section_ header m) + e.number * 8

structure IsIn : Prop where
  table : IsTable header m e.table
  number : e.number < sectionSize m (e.section_ header m) / 8

def info : UInt32 := load m (e.address header m + 4)

def type : Option RelocationType := RelocationType.ofByte (e.info header m % 0x100)

def target : UInt32 := refAddress header m (e.section_ header m) (load m (e.address header m))

def symbol : UInt32 := symbolAt header m (symbolTable header m e.table) (e.info header m >>> 8)

def sectionIndex : UInt32 := load16 m (e.symbol header m + 14)

structure Named (name : CStr) : Prop where
  string : IsString m (header + sectionOffset m (stringTable header m e.table) + load m (e.symbol header m)) name
  inside : (load m (e.symbol header m)).toNat + name.length < (sectionSize m (stringTable header m e.table)).toNat

/-- `S`: where the kernel has the symbol, or the base of its section in the image plus its value. -/
def Symbol (S : UInt32) : Prop :=
  (e.sectionIndex header m = 0 ∧ ∃ name, e.Named header m name ∧ map.findSymbol name = some ⟨S⟩) ∨
  (e.sectionIndex header m ≠ 0 ∧ S = header + sectionOffset m (getSectionHeader header m (e.sectionIndex header m)) +
      load m (e.symbol header m + 4))

structure Readable : Prop where
  isIn : e.IsIn header m
  nonzero : e.info header m >>> 8 ≠ 0
  info : sectionInfo m (e.section_ header m) < sectionHeaderTableEntries header m
  link : linkIndex m (e.section_ header m) < sectionHeaderTableEntries header m
  names : linkIndex m (symbolTable header m e.table) < sectionHeaderTableEntries header m
  symbol : (e.info header m >>> 8).toNat * 16 + 16 ≤ (sectionSize m (symbolTable header m e.table)).toNat
  defined : e.type header m ≠ some .gotpc → e.sectionIndex header m < sectionHeaderTableEntries header m

structure Missing : Prop where
  type : e.type header m ≠ some .gotpc
  undefined : e.sectionIndex header m = 0
  name : ∃ name, e.Named header m name ∧ map.findSymbol name = none

end Entry

/-- The word that a relocation leaves: `A` is the word before, `P` its address. -/
def RelocationType.word (t : RelocationType) (S A P got : UInt32) : UInt32 :=
  match t with
  | .none => A
  | .abs32 => S + A
  | .pc32 => S + A - P
  | .plt32 => S + A - P
  | .gotoff => S + A - got
  | .gotpc => got + A - P
  | .got32 => A

/-- The relocations of an image, with its NOBITS sections bound. -/
structure WellFormed (m : Memory) : Prop where
  info : ∀ i, IsTable header m i → sectionInfo m (getSectionHeader header m i) < sectionHeaderTableEntries header m
  link : ∀ i, IsTable header m i → linkIndex m (getSectionHeader header m i) < sectionHeaderTableEntries header m
  names : ∀ i, IsTable header m i → linkIndex m (symbolTable header m i) < sectionHeaderTableEntries header m
  type : ∀ e : Entry, e.IsIn header m → ∃ t, e.type header m = some t ∧ t ≠ .got32
  nonzero : ∀ e : Entry, e.IsIn header m → e.info header m >>> 8 ≠ 0
  symbol : ∀ e : Entry, e.IsIn header m → (e.info header m >>> 8).toNat * 16 + 16 ≤
    (sectionSize m (symbolTable header m e.table)).toNat
  defined : ∀ e : Entry, e.IsIn header m → e.type header m ≠ some .gotpc →
    e.sectionIndex header m < sectionHeaderTableEntries header m
  undefined : ∀ e : Entry, e.IsIn header m → e.type header m ≠ some .gotpc →
    e.sectionIndex header m = 0 → ∃ name, e.Named header m name
  apart : ∀ e : Entry, e.IsIn header m → ∀ x, InBytes (e.target header m) 4 x → ¬ InTables header m x
  once : ∀ e e' : Entry, e.IsIn header m → e'.IsIn header m → e ≠ e' →
    ∀ x, InBytes (e.target header m) 4 x → ¬ InBytes (e'.target header m) 4 x

end OlliOS.Elf
