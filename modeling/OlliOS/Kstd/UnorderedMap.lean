import OlliOS.Kstd.Vector

/-!
# `std::unordered_map`

The buckets hold the keys and values that are in use, in the order in which they were put there.
`operator[]` and `put` let a full map grow and then try again; `depth` says how often a call may grow the map
within itself.
-/

namespace OlliOS

structure UnorderedMap (K V : Type) where
  numBuckets : UInt32
  bucketSize : UInt32
  buckets : ℕ → List (K × V)

namespace UnorderedMap

inductive Fault
  | noMemory
  /-- The map has to grow more often than `depth` allows. -/
  | endless
  /-- An assignment frees memory that the destructor of the same object has freed. -/
  | freedTwice
  deriving DecidableEq

variable {K V : Type} [BEq K] (hash : K → UInt32) (map : UnorderedMap K V)

def bucket (k : K) : ℕ := (hash k % map.numBuckets).toNat

def lookup (k : K) : Option V := ((map.buckets (bucket hash map k)).find? fun e => k == e.1).map Prod.snd

def count (k : K) : ℕ :=
  if (map.buckets (bucket hash map k)).any fun e => k == e.1 then 1 else 0

def find (k : K) : Option ℕ := (map.buckets (bucket hash map k)).findIdx? fun e => k == e.1

def empty : UnorderedMap K V := ⟨16, 8, fun _ => []⟩

/-- `allocateBuckets`. Every place takes a byte at least, so that the address space ends the growth. -/
def allocateBuckets (numBuckets bucketSize : UInt32) : Except Fault (UnorderedMap K V) :=
  if numBuckets.toNat * bucketSize.toNat < 0x100000000 then .ok ⟨numBuckets, bucketSize, fun _ => []⟩
  else .error .noMemory

def append (k : K) (v : V) : UnorderedMap K V :=
  { map with
    buckets := Function.update map.buckets (bucket hash map k) (map.buckets (bucket hash map k) ++ [(k, v)]) }

def entries : List (K × V) := (List.range map.numBuckets.toNat).flatMap map.buckets

def grow (put : UnorderedMap K V → K → V → Except Fault (UnorderedMap K V)) : Except Fault (UnorderedMap K V) := do
  let larger ← allocateBuckets (map.numBuckets * 2) (map.bucketSize * 2)
  map.entries.foldlM (fun map e => put map e.1 e.2) larger

def put : ℕ → UnorderedMap K V → K → V → Except Fault (UnorderedMap K V)
  | depth, map, k, v =>
    if map.bucketSize.toNat ≤ (map.buckets (bucket hash map k)).length then
      match depth with
      | 0 => .error .endless
      | depth + 1 => do put depth (← map.grow (put depth)) k v
    else .ok (append hash map k v)

def increaseSize (depth : ℕ) : Except Fault (UnorderedMap K V) := map.grow (put hash depth)

variable [Inhabited V]

/-- `operator[]`: the map, and the place of the value in the bucket of the key. -/
def index : ℕ → UnorderedMap K V → K → Except Fault (UnorderedMap K V × ℕ)
  | depth, map, k =>
    match find hash map k with
    | some i => .ok (map, i)
    | none =>
      if map.bucketSize.toNat ≤ (map.buckets (bucket hash map k)).length then
        match depth with
        | 0 => .error .endless
        | depth + 1 => do index depth (← increaseSize hash map depth) k
      else .ok (append hash map k default, (map.buckets (bucket hash map k)).length)

def read (depth : ℕ) (k : K) : Except Fault (UnorderedMap K V × Option V) := do
  let (map, i) ← index hash depth map k
  return (map, (map.buckets (bucket hash map k))[i]?.map Prod.snd)

def assign (depth : ℕ) (k : K) (v : V) : Except Fault (UnorderedMap K V) := do
  let (map, i) ← index hash depth map k
  return { map with
    buckets := Function.update map.buckets (bucket hash map k)
      ((map.buckets (bucket hash map k)).modify i fun e => (e.1, v)) }

omit [Inhabited V]

/-- The key has an entry, and another one is behind it in the bucket. -/
def Followed (k : K) : Prop := ∃ i ∈ find hash map k, i + 1 < (map.buckets (bucket hash map k)).length

instance (k : K) : Decidable (Followed hash map k) :=
  inferInstanceAs (Decidable (∃ i ∈ find hash map k, _))

/-- The entry is destroyed and then, if another one is behind it, assigned to. If the keys or values are
`owning`, as a `std::string` is, the assignment frees again what the destructor has freed. -/
def erase (owning : Bool) (k : K) : Except Fault (ℕ × UnorderedMap K V) :=
  match find hash map k with
  | some i =>
    if owning = true ∧ i + 1 < (map.buckets (bucket hash map k)).length then .error .freedTwice
    else .ok (1, { map with
      buckets := Function.update map.buckets (bucket hash map k)
        (Vector.erase (map.buckets (bucket hash map k)) i) })
  | none => .ok (0, map)

def copyFrom : Except Fault (UnorderedMap K V) := do
  let copy : UnorderedMap K V ← allocateBuckets map.numBuckets map.bucketSize
  return { copy with buckets := fun b => if b < map.numBuckets.toNat then map.buckets b else [] }

end UnorderedMap

inductive MapCall (ι K V : Type)
  | read (i : ι) (k : K)
  | assign (i : ι) (k : K) (v : V)
  | erase (i : ι) (k : K)
  | count (i : ι) (k : K)
  | copyConstruct (i j : ι) (h : i ≠ j)
  | copyAssign (i j : ι) (h : i ≠ j)

inductive MapResult (V : Type)
  | value (v : Option V)
  | number (n : ℕ)
  | done

section Calls

variable {ι K V : Type} [DecidableEq ι] [BEq K] [Inhabited V]

/-- `owning` says of the class of the keys or that of the values that its objects own memory. -/
def MapCall.perform (hash : K → UInt32) (owning : Bool) (depth : ℕ) (maps : ι → UnorderedMap K V) :
    MapCall ι K V → Except UnorderedMap.Fault ((ι → UnorderedMap K V) × MapResult V)
  | .read i k => do
    let (map, v) ← (maps i).read hash depth k
    return (Function.update maps i map, .value v)
  | .assign i k v => return (Function.update maps i (← (maps i).assign hash depth k v), .done)
  | .erase i k => do
    let (n, map) ← (maps i).erase hash owning k
    return (Function.update maps i map, .number n)
  | .count i k => return (maps, .number ((maps i).count hash k))
  | .copyConstruct i j _ => return (Function.update maps i (← (maps j).copyFrom), .done)
  | .copyAssign i j _ => return (Function.update maps i (← (maps j).copyFrom), .done)

def MapCall.run (hash : K → UInt32) (owning : Bool) (depth : ℕ) (calls : List (MapCall ι K V)) :
    Except UnorderedMap.Fault ((ι → UnorderedMap K V) × List (MapResult V)) :=
  calls.foldlM (fun s call => do
    let (maps, result) ← call.perform hash owning depth s.1
    return (maps, s.2 ++ [result])) (fun _ => .empty, [])

end Calls

/-- `std::hash<std::string>`, which takes every other character. -/
def hashString (str : List UInt8) : UInt32 :=
  let hash := go 0 str
  let hash := hash + hash <<< 3
  let hash := hash ^^^ hash >>> 11
  hash + hash <<< 15
where
  pass (hash : UInt32) (c : UInt8) : UInt32 :=
    let hash := hash + c.toInt8.toInt32.toUInt32
    let hash := hash + hash <<< 10
    hash ^^^ hash >>> 6
  go : UInt32 → List UInt8 → UInt32
    | hash, [] => hash
    | hash, [c] => pass hash c
    | hash, c :: _ :: str => go (pass hash c) str

end OlliOS
