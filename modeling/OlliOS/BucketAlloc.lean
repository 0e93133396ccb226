import OlliOS.Lib.Loop
import OlliOS.Lib.Stepping
import OlliOS.Lib.Words

/-!
# The kernel heap

An area starts with a header of two words, the link to the area registered before it and its end. The rest is
divided into regions, each with a header of two words, its size and a link; the highest bit of the size is set
while the region is in use. Bucket `i` heads a list of free regions whose size has its highest bit at `i`.

The state also records the areas that were registered and the bytes that were written since `written` was
last emptied. The calls are made one after the other, and the lock is left out.
-/

namespace OlliOS

open Words

structure BucketAlloc where
  mem : Memory
  buckets : ℕ → UInt32
  memoryLinkedList : UInt32
  areas : List (UInt32 × UInt32)
  written : List UInt32

/-- The range of addresses is in the address space, shorter than 2 GiB, and has no byte in common with
any of the areas. -/
def FreshArea (areas : List (UInt32 × UInt32)) (start length : UInt32) : Prop :=
  length.toNat < 0x80000000 ∧ start.toNat + length.toNat ≤ 0x100000000 ∧ ∀ a ∈ areas,
    min (a.1.toNat + a.2.toNat) (start.toNat + length.toNat) ≤ max a.1.toNat start.toNat

instance (areas : List (UInt32 × UInt32)) (start length : UInt32) : Decidable (FreshArea areas start length) :=
  @instDecidableAnd _ _ _ (@instDecidableAnd _ _ _ (List.decidableBAll _ areas))

namespace BucketAlloc

def usedFlag : UInt32 := 0x80000000

def popcount (v : UInt32) : ℕ := (List.range 32).countP fun i => v.toNat.testBit i

def nextLowestPowerOfTwo (v : UInt32) : ℕ := v.toNat.log2

def nextHighestPowerOfTwo (v : UInt32) : ℕ := v.toNat.log2 + if popcount v > 1 then 1 else 0

def zeroed (mem : Memory) : BucketAlloc := ⟨mem, fun _ => 0, 0, [], []⟩

def store (h : BucketAlloc) (a v : UInt32) : BucketAlloc :=
  { h with mem := Words.store h.mem a v, written := a :: (a + 1) :: (a + 2) :: (a + 3) :: h.written }

def storeByte (h : BucketAlloc) (a : UInt32) (v : UInt8) : BucketAlloc :=
  { h with mem := Function.update h.mem a v, written := a :: h.written }

def setBucket (h : BucketAlloc) (i : ℕ) (region : UInt32) : BucketAlloc :=
  { h with buckets := Function.update h.buckets i region }

def init (h : BucketAlloc) (start length : UInt32) : BucketAlloc :=
  let h := { h with areas := (start, length) :: h.areas }
  if length ≤ 16 then h
  else
    let start := start + 8
    let length := length - 8
    let bucket := nextLowestPowerOfTwo (length - 8)
    let h := h.setBucket bucket start
    let h := h.store start (length - 8)
    let h := h.store (start + 4) 0
    let h := h.store (start - 8) h.memoryLinkedList
    let h := h.store (start - 4) (start + length)
    { h with memoryLinkedList := start - 8 }

def insertIntoBucket (h : BucketAlloc) (region : UInt32) : BucketAlloc :=
  let bucket := nextLowestPowerOfTwo (load h.mem region)
  let h := h.store (region + 4) (h.buckets bucket)
  h.setBucket bucket region

def firstBucket (h : BucketAlloc) (size : UInt32) : Option ℕ :=
  let bucket := nextHighestPowerOfTwo size
  (List.range' bucket (32 - bucket)).find? fun i => h.buckets i != 0

def takeFirst (h : BucketAlloc) (i : ℕ) (size : UInt32) : BucketAlloc × UInt32 :=
  let oldregpos := h.buckets i
  let (h, size) :=
    if size + 8 < load h.mem oldregpos then
      let newregpos := oldregpos + size + 8
      let h := h.store newregpos (load h.mem oldregpos - size - 8)
      let h := h.setBucket i (load h.mem (oldregpos + 4))
      (h.insertIntoBucket newregpos, size)
    else
      let size := load h.mem oldregpos
      (h.setBucket i (load h.mem (oldregpos + 4)), size)
  let h := h.store oldregpos (size ||| usedFlag)
  let h := h.store (oldregpos + 4) 0
  (h, oldregpos + 8)

def mallocOneTry (h : BucketAlloc) (size : UInt32) : Option (BucketAlloc × UInt32) :=
  (h.firstBucket size).map fun i => h.takeFirst i size

def mergePass («end» : UInt32) : UInt32 × BucketAlloc → (UInt32 × BucketAlloc) ⊕ BucketAlloc
  | (current, h) =>
    if current < «end» then
      let size := load h.mem current
      if usedFlag ≤ size then .inl (current + (size ^^^ usedFlag) + 8, h)
      else if «end» ≤ current + size + 8 then .inr h
      else
        let next := load h.mem (current + size + 8)
        if usedFlag ≤ next then .inl (current + size + 8, h)
        else .inl (current, h.store current (size + next + 8))
    else .inr h

def rebuildPass («end» : UInt32) : UInt32 × BucketAlloc → (UInt32 × BucketAlloc) ⊕ BucketAlloc
  | (current, h) =>
    if current < «end» then
      let h := if load h.mem current < usedFlag then h.insertIntoBucket current else h
      .inl (current + (load h.mem current &&& ~~~ usedFlag) + 8, h)
    else .inr h

def passes : ℕ := 0x100000001

def mergeOneArea (h : BucketAlloc) (start «end» : UInt32) : Option BucketAlloc := do
  let h ← Loop.run (mergePass «end») passes (start, h)
  Loop.run (rebuildPass «end») passes (start, h)

def areaPass : UInt32 × BucketAlloc → (UInt32 × BucketAlloc) ⊕ Option BucketAlloc
  | (current, h) =>
    if current ≠ 0 then
      match h.mergeOneArea (current + 8) (load h.mem (current + 4)) with
      | none => .inr none
      | some h => .inl (load h.mem current, h)
    else .inr (some h)

def merge (h : BucketAlloc) : Option BucketAlloc :=
  let h := { h with buckets := fun i => if i < 32 then 0 else h.buckets i }
  (Loop.run areaPass passes (h.memoryLinkedList, h)).join

/-- The length of the area that `malloc` asks for when there is no memory left. -/
def refillSize (size : UInt32) : UInt32 :=
  let bucket := nextHighestPowerOfTwo size
  let bucketmemsize : UInt32 := 1 <<< UInt32.ofNat bucket
  let allocsize := bucketmemsize + if bucketmemsize % 0x1000 = 0 then 0 else 0x1000 - bucketmemsize % 0x1000
  if nextHighestPowerOfTwo (allocsize - 16) = bucket then allocsize + 0x1000 else allocsize

/-- `pages` are the pages that `bindFirstFreeVirtualPages` returns, one for each time it is asked;
they are taken to be apart from the areas there are. Without a page, `malloc` does not return. -/
def malloc (h : BucketAlloc) (size : UInt32) (pages : List UInt32) : Option (BucketAlloc × UInt32) :=
  match h.mallocOneTry size with
  | some r => some r
  | none =>
    match h.merge with
    | none => none
    | some h =>
      match h.mallocOneTry size, pages with
      | some r, _ => some r
      | none, [] => none
      | none, page :: pages =>
        if page ≠ 0 ∧ FreshArea h.areas page (refillSize size) then
          malloc (h.init page (refillSize size)) size pages
        else none
termination_by pages.length

def free (h : BucketAlloc) (ptr : UInt32) : BucketAlloc :=
  let reg := ptr - 8
  let h := h.store reg (load h.mem reg ^^^ usedFlag)
  h.insertIntoBucket reg

def memcpy (h : BucketAlloc) (dst src n : UInt32) : BucketAlloc :=
  (List.range n.toNat).foldl (fun h i => h.storeByte (dst + UInt32.ofNat i) (h.mem (src + UInt32.ofNat i))) h

def realloc (h : BucketAlloc) (ptr size : UInt32) (pages : List UInt32) : Option (BucketAlloc × UInt32) :=
  (h.malloc size pages).map fun (h, newmem) =>
    let reg := ptr - 8
    let oldsize := load h.mem reg &&& ~~~ usedFlag
    let h := if oldsize < size then h.memcpy newmem ptr oldsize else h.memcpy newmem ptr size
    (h.free ptr, newmem)

def blockSize (h : BucketAlloc) (ptr : UInt32) : ℕ := (load h.mem (ptr - 8) &&& ~~~ usedFlag).toNat

def Payload (h : BucketAlloc) (ptr x : UInt32) : Prop :=
  ptr.toNat ≤ x.toNat ∧ x.toNat < ptr.toNat + h.blockSize ptr

instance (h : BucketAlloc) (ptr x : UInt32) : Decidable (h.Payload ptr x) :=
  inferInstanceAs (Decidable (_ ∧ _))

end BucketAlloc

structure HeapState where
  alloc : BucketAlloc
  live : List (UInt32 × UInt32)

inductive HeapCall
  | init (start length : UInt32)
  | malloc (size : UInt32) (pages : List UInt32)
  | realloc (ptr size : UInt32) (pages : List UInt32)
  | free (ptr : UInt32)
  | merge
  | write (ptr x : UInt32) (v : UInt8)

namespace HeapState

def init (mem : Memory) : HeapState := ⟨BucketAlloc.zeroed mem, []⟩

def fresh (s : HeapState) : BucketAlloc := { s.alloc with written := [] }

def without (s : HeapState) (ptr : UInt32) : List (UInt32 × UInt32) := s.live.filter fun b => b.1 != ptr

def SizeOk (size : UInt32) : Prop := 1 ≤ size ∧ size ≤ 0x40000000

instance (size : UInt32) : Decidable (SizeOk size) := inferInstanceAs (Decidable (_ ∧ _))

def step (s : HeapState) : HeapCall → Option HeapState
  | .init start length =>
    if FreshArea s.alloc.areas start length then
      some { s with alloc := s.fresh.init start length }
    else none
  | .malloc size pages =>
    if SizeOk size then
      (s.fresh.malloc size pages).map fun (h, p) => ⟨h, (p, size) :: s.live⟩
    else none
  | .realloc ptr size pages =>
    if ptr ∈ s.live.map Prod.fst ∧ SizeOk size then
      (s.fresh.realloc ptr size pages).map fun (h, p) => ⟨h, (p, size) :: s.without ptr⟩
    else none
  | .free ptr =>
    if ptr ∈ s.live.map Prod.fst then some ⟨s.fresh.free ptr, s.without ptr⟩ else none
  | .merge => s.fresh.merge.map fun h => { s with alloc := h }
  | .write ptr x v =>
    if ptr ∈ s.live.map Prod.fst ∧ s.alloc.Payload ptr x then
      some { s with alloc := { s.fresh with mem := Function.update s.alloc.mem x v } }
    else none

end HeapState

end OlliOS
