import OlliOS.BucketAlloc

/-!
# A refill of the heap

When `malloc` finds no region, neither at once nor after a merge, it asks for an area and starts over.
The operations on `u32` on the way are listed as the code makes them.
-/

namespace OlliOS

inductive WordOp
  | add (a b : UInt32)
  | sub (a b : UInt32)
  | shl (n : ℕ)

def WordOp.Exact : WordOp → Prop
  | .add a b => a.toNat + b.toNat < 2 ^ 32
  | .sub a b => b.toNat ≤ a.toNat
  | .shl n => n < 32

instance : DecidablePred WordOp.Exact
  | .add _ _ => inferInstanceAs (Decidable (_ < _))
  | .sub _ _ => inferInstanceAs (Decidable (_ ≤ _))
  | .shl _ => inferInstanceAs (Decidable (_ < _))

namespace BucketAlloc

def sizeOps (bucket : ℕ) : List WordOp :=
  let bucketmemsize : UInt32 := 1 <<< UInt32.ofNat bucket
  let rest := bucketmemsize % 0x1000
  let allocsize := bucketmemsize + if rest = 0 then 0 else 0x1000 - rest
  [.shl bucket] ++ (if rest = 0 then [.add bucketmemsize 0]
      else [.sub 0x1000 rest, .add bucketmemsize (0x1000 - rest)]) ++
    [.sub allocsize 16] ++
    if nextHighestPowerOfTwo (allocsize - 16) = bucket then [.add allocsize 0x1000] else []

def initOps (start length : UInt32) : List WordOp :=
  [.add start 8, .sub length 8, .sub (length - 8) 8, .add (start + 8) 4, .sub (start + 8) 8,
    .sub (start + 8) 4, .add (start + 8) (length - 8)]

def takeOps (region oldsize size : UInt32) : List WordOp :=
  [.add size 8] ++ (if size + 8 < oldsize then
      [.add region size, .add (region + size) 8, .sub oldsize size, .sub (oldsize - size) 8, .add (region + size + 8) 4]
    else []) ++
    [.add region 4, .add region 8]

def refillOps (size page : UInt32) : List WordOp :=
  sizeOps (nextHighestPowerOfTwo size) ++ initOps page (refillSize size) ++
    takeOps (page + 8) (refillSize size - 16) size

/-- `malloc` asks for pages, with the allocator as `h'` by then. -/
def AsksForPages (h : BucketAlloc) (size : UInt32) (h' : BucketAlloc) : Prop :=
  h.mallocOneTry size = none ∧ h.merge = some h' ∧ h'.mallocOneTry size = none

/-- The area from `page` on serves the request: its region goes into an empty bucket, `malloc` takes the
block off it without a further page, and nothing overflows. -/
structure Refills (h h' : BucketAlloc) (size page : UInt32) : Prop where
  empty : h'.buckets (nextLowestPowerOfTwo (refillSize size - 16)) = 0
  served : ∃ r, ∀ pages, (h'.init page (refillSize size)).malloc size pages = some (r, page + 16) ∧
    (FreshArea h'.areas page (refillSize size) → h.malloc size (page :: pages) = some (r, page + 16))
  exact : ∀ op ∈ refillOps size page, op.Exact

end BucketAlloc

end OlliOS
