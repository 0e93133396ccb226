import OlliOS.Relocation

/-!
# The program break

`load_file_and_run` links a program in the directory in use and sets its break to the greatest end of a
section. `sbrk` moves the break and binds the pages behind the one of the old break, up to the one of the
new break. The functions return `none` where a page cannot be bound.
-/

namespace OlliOS

open Words

namespace Elf

variable (m : Memory) (header : UInt32)

def sectionBreaks : List UInt32 :=
  (List.range' 0 (sectionHeaderTableEntries header m).toNat).map fun i =>
    let section_ := getSectionHeader header m (UInt32.ofNat i)
    load m (section_ + 12) + sectionSize m section_

def getProgramBreak : UInt32 :=
  (sectionBreaks m header).foldl (fun brk sectionBreak => if sectionBreak > brk then sectionBreak else brk) 0

end Elf

structure Program where
  machine : Machine
  programBreak : UInt32

namespace Program

/-- The program of a file, as `load_file_and_run` leaves it. -/
def load (m : Memory) (header : UInt32) (s : Machine) : Option Program :=
  (Elf.linkInUserspace m header s).map fun s => ⟨s, Elf.getProgramBreak m header⟩

def sbrk (s : Program) (inc : Int32) : Option (Program × UInt32) :=
  if inc = 0 then some (s, s.programBreak)
  else do
    let newBrk := s.programBreak + inc.toUInt32
    let curBrkPage := (s.programBreak / 0x1000).toNat
    let newBrkPage := (newBrk / 0x1000).toNat
    let machine ← (List.range' curBrkPage (newBrkPage - curBrkPage)).foldlM
      (fun machine i => machine.bindVirtualPage (i + 1) .user) s.machine
    return (⟨machine, newBrk⟩, s.programBreak)

def step (s : Program) (inc : Int32) : Option Program := (s.sbrk inc).map (·.1)

end Program

def Machine.Grantable (s : Machine) (page : ℕ) : Prop :=
  UserPage s s.cr3 page ∨ s.mapping page = none ∧ s.SlotUser (page / 1024)

/-- After `sbrk(inc)` has returned `p`, the break is `inc` bytes further and these are on pages of the
user. -/
def Program.Usable (s : Program) (p : UInt32) (inc : Int32) : Prop :=
  (s.programBreak.toNat : ℤ) = p.toNat + inc.toInt ∧
    ∀ page, p.toNat < (page + 1) * 0x1000 → (page * 0x1000 : ℤ) < p.toNat + inc.toInt →
      UserPage s.machine s.machine.cr3 page

/-- The break stays in the address space below the window. A break that is raised is on a page of the
user, and the pages behind it up to the new break can be given to the user. -/
structure Program.Grows (s : Program) (inc : Int32) : Prop where
  low : 0 ≤ (s.programBreak.toNat : ℤ) + inc.toInt
  high : (s.programBreak.toNat : ℤ) + inc.toInt < 0xFFC00000
  first : 0 < inc.toInt → UserPage s.machine s.machine.cr3 (s.programBreak.toNat / 0x1000)
  rest : 0 < inc.toInt → ∀ page, s.programBreak.toNat / 0x1000 < page →
    (page * 0x1000 : ℤ) < s.programBreak.toNat + inc.toInt → s.machine.Grantable page

/-- The pages that `sbrk(inc)` binds are of the slots `U`. -/
def Program.Within (U : ℕ → Prop) (s : Program) (inc : Int32) : Prop :=
  ∀ page, s.programBreak.toNat / 0x1000 < page →
    (page * 0x1000 : ℤ) ≤ s.programBreak.toNat + inc.toInt → U (page / 1024)

end OlliOS
