import OlliOS.Iso9660

/-!
# Directory records of any content

A record is as long as its first byte says. Behind the identifier come fields, each with a signature of
two bytes and a length; the search for a field goes from one to the next by the length, with a position
of 8 bits.
-/

namespace OlliOS.Iso9660FileSystem

def recordAt (mem : ℕ → UInt8) : List UInt8 := (List.range (mem 0).toNat).map mem

/-- The search ends, it reads bytes of the record only, and a field that it finds ends in the record. -/
def FieldFound (record : List UInt8) (b1 b2 : UInt8) : Prop :=
  ∃ found, getSystemUseField record b1 b2 = some found ∧
    ∀ p, found = some p → ∃ l, record[p + 2]? = some l ∧ p + l.toNat ≤ record.length

def identifier (record : List UInt8) (length : UInt8) : CStr :=
  ((record.drop 33).take length.toNat).takeWhile fun c => decide (c ≠ 0)

/-- The name is what the field of alternate names has behind its header, and without such a field it is
the identifier. -/
def NameBuilt (record : List UInt8) : Prop :=
  ∃ name, readName record = some name ∧ ((∃ p l, getSystemUseField record 'N'.toUInt8 'M'.toUInt8 = some (some p) ∧
        record[p + 2]? = some l ∧ name.length + 5 = l.toNat) ∨
      ∃ length, getSystemUseField record 'N'.toUInt8 'M'.toUInt8 = some none ∧
        record[32]? = some length ∧ 33 + length.toNat ≤ record.length ∧
        name = if HasId record 0 then dot else if HasId record 1 then dotdot else identifier record length)

def Parses (record : List UInt8) : Prop := (∀ b1 b2, FieldFound record b1 b2) ∧ NameBuilt record

def firstField (length : UInt8) : UInt8 := (if length % 2 = 0 then length + 1 else length) + 33

/-- There are fields at the positions, the first of them at `cur`, each where the one before it says, and
the last one leads to the end of the record. -/
def Fields (record : List UInt8) : UInt8 → List UInt8 → Prop
  | cur, [] => record.length ≤ cur.toNat + 1
  | cur, p :: ps => p = cur ∧ ∃ l, record[cur.toNat + 2]? = some l ∧ Fields record (cur + l) ps

def HasSignature (record : List UInt8) (b1 b2 p : UInt8) : Prop :=
  record[p.toNat]? = some b1 ∧ record[p.toNat + 1]? = some b2

instance (record : List UInt8) (b1 b2 p : UInt8) : Decidable (HasSignature record b1 b2 p) :=
  inferInstanceAs (Decidable (_ ∧ _))

def firstWith (record : List UInt8) (ps : List UInt8) (b1 b2 : UInt8) : Option UInt8 :=
  ps.find? fun p => decide (HasSignature record b1 b2 p)

/-- The field of alternate names is long enough and has no 0 in its text, or the identifier ends in the
record if there is no such field. -/
def NameFits (record ps : List UInt8) (length : UInt8) : Prop :=
  match firstWith record ps 'N'.toUInt8 'M'.toUInt8 with
  | some p => ∃ l, record[p.toNat + 2]? = some l ∧ 5 ≤ l.toNat ∧
      ∀ i, 5 ≤ i → i < l.toNat → record[p.toNat + i]? ≠ some 0
  | none => 33 + length.toNat ≤ record.length

/-- The fields lead to the end of the record, the first field with any signature ends in it, and the name
fits. -/
def WellFormed (record : List UInt8) : Prop :=
  ∃ length ps, record[32]? = some length ∧ Fields record (firstField length) ps ∧
    (∀ b1 b2 p l, firstWith record ps b1 b2 = some p → record[p.toNat + 2]? = some l →
      p.toNat + l.toNat ≤ record.length) ∧ NameFits record ps length

end OlliOS.Iso9660FileSystem
