import OlliOS.Proofs.Regions

/-!
# Free lists

The regions of an area are read off their headers, one after the other. Every free region is to be in the
list of its bucket once, and nothing else is to be in a list.
-/

namespace OlliOS

open Words

def Coalesced (rs : List Region) : Prop := rs.IsChain fun r q => r.used = true ∨ q.used = true

namespace BucketAlloc

def regionsFrom (mem : Memory) («end» : ℕ) : ℕ → ℕ → List Region
  | 0, _ => []
  | n + 1, pos =>
    if pos < «end» then
      let word := load mem (UInt32.ofNat pos)
      let r : Region := ⟨UInt32.ofNat pos, word &&& ~~~ usedFlag, usedFlag ≤ word⟩
      r :: regionsFrom mem «end» n (pos + r.len)
    else []

def areaRegions (h : BucketAlloc) (a : UInt32 × UInt32) : List Region :=
  regionsFrom h.mem (a.1.toNat + a.2.toNat) a.2.toNat (a.1.toNat + 8)

/-- The chains of the buckets are the given lists, and a region is in the list of a bucket once if it is free
and of that size, and not at all otherwise. -/
structure FreeLists (h : BucketAlloc) (lists : ℕ → List UInt32) : Prop where
  chain : ∀ b, Links.Chain (fun p => link (load h.mem (p + 4))) (link (h.buckets b)) (lists b)
  nodup : ∀ b, (lists b).Nodup
  count : ∀ a ∈ h.areas, ∀ r ∈ h.areaRegions a, ∀ b,
    (lists b).count r.addr = if r.used = false ∧ r.size.toNat.log2 = b then 1 else 0
  region : ∀ b, ∀ p ∈ lists b, ∃ a ∈ h.areas, ∃ r ∈ h.areaRegions a, r.addr = p

/-- What `merge` leaves: the regions in use and what they hold, the areas and the bytes that their regions
take up with the headers, and no free neighbours. -/
structure Coalesces (h h' : BucketAlloc) : Prop where
  areas : h'.areas = h.areas
  used : ∀ a ∈ h.areas, (h'.areaRegions a).filter (·.used) = (h.areaRegions a).filter (·.used)
  contents : ∀ a ∈ h.areas, ∀ r ∈ h.areaRegions a, r.used = true → ∀ x, r.Has x → h'.mem x = h.mem x
  sum : ∀ a ∈ h.areas, ((h'.areaRegions a).map Region.len).sum = ((h.areaRegions a).map Region.len).sum
  coalesced : ∀ a ∈ h.areas, Coalesced (h'.areaRegions a)

end BucketAlloc

namespace HeapState

/-- Areas are registered by refills only, with pages that end before the address space does. -/
def Refilled (_ : HeapState) : HeapCall → Prop
  | .init _ _ => False
  | .malloc size pages | .realloc _ size pages =>
    ∀ page ∈ pages, page.toNat + (BucketAlloc.refillSize size).toNat < 2 ^ 32
  | .free _ | .merge | .write _ _ _ => True

instance (s : HeapState) (call : HeapCall) : Decidable (s.Refilled call) :=
  match call with
  | .init _ _ => inferInstanceAs (Decidable False)
  | .malloc _ pages | .realloc _ _ pages => List.decidableBAll _ pages
  | .free _ | .merge | .write _ _ _ => inferInstanceAs (Decidable True)

end HeapState

end OlliOS
