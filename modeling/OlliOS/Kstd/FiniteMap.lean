import OlliOS.Kstd.UnorderedMap
import OlliOS.Lib.Assoc

/-!
# What an unordered map is for

A family of partial functions from keys to values. A read of a key without a value gives it the default
value, as `operator[]` promises.
-/

namespace OlliOS

namespace MapCall

variable {ι K V : Type} [DecidableEq ι] [BEq K] [Inhabited V]

def specify (m : ι → K → Option V) : MapCall ι K V → (ι → K → Option V) × MapResult V
  | .read i k =>
    (Function.update m i (Assoc.insert (m i) k ((m i k).getD default)), .value (some ((m i k).getD default)))
  | .assign i k v => (Function.update m i (Assoc.insert (m i) k v), .done)
  | .erase i k => (Function.update m i (Assoc.erase (m i) k), .number (if (m i k).isSome then 1 else 0))
  | .count i k => (m, .number (if (m i k).isSome then 1 else 0))
  | .copyConstruct i j _ => (Function.update m i (m j), .done)
  | .copyAssign i j _ => (Function.update m i (m j), .done)

/-- The call does not erase an owning entry with another one behind it. -/
def Careful (hash : K → UInt32) (owning : Bool) (maps : ι → UnorderedMap K V) : MapCall ι K V → Prop
  | .erase i k => owning = true → ¬ (maps i).Followed hash k
  | _ => True

end MapCall

/-- Every key is in its bucket once, and no bucket has more entries than places. -/
structure UnorderedMap.Ok {K V : Type} [BEq K] (hash : K → UInt32) (map : UnorderedMap K V) : Prop where
  shape : map.numBuckets.toNat = 2 * map.bucketSize.toNat
  size : 8 ≤ map.bucketSize.toNat
  memory : map.numBuckets.toNat * map.bucketSize.toNat < 0x100000000
  used : ∀ b, (map.buckets b).length ≤ map.bucketSize.toNat
  placed : ∀ b, ∀ e ∈ map.buckets b, bucket hash map e.1 = b
  once : ∀ b, Assoc.Distinct (map.buckets b)

namespace MapCall

variable {ι K V : Type} [DecidableEq ι] [BEq K] [Inhabited V]

end MapCall

end OlliOS
