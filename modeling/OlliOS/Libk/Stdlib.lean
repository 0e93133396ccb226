import OlliOS.BucketAlloc

/-!
# The allocation functions of the kernel's library

`malloc` and `realloc` put a length and a canary before the bytes that were asked for and a canary behind them;
`free` and `realloc` panic with the words they found if one is not the canary. `calloc` leaves room for these
words and does not write them. `CanaryHeap` is the heap with the blocks that are in use.
-/

namespace OlliOS

open Words

def BucketAlloc.calloc (h : BucketAlloc) (num size : UInt32) (pages : List UInt32) : Option (BucketAlloc × UInt32) :=
  h.malloc (num * size) pages

namespace Libk

def canary : UInt32 := 0xDEADBEEF

def fence (h : BucketAlloc) (data size : UInt32) : BucketAlloc :=
  let h := h.store data size
  let h := h.store (data + 4) canary
  h.store (data + 8 + size) canary

def malloc (h : BucketAlloc) (size : UInt32) (pages : List UInt32) : Option (BucketAlloc × UInt32) :=
  (h.malloc (size + 12) pages).map fun (h, data) => (fence h data size, data + 8)

def calloc (h : BucketAlloc) (num size : UInt32) (pages : List UInt32) : Option (BucketAlloc × UInt32) :=
  (h.calloc num (size + 12) pages).map fun (h, data) => (h, data + 8)

def canaries (h : BucketAlloc) (ptr : UInt32) : UInt32 × UInt32 :=
  let pre := ptr - 8
  let post := ptr + load h.mem pre
  (load h.mem (pre + 4), load h.mem post)

def Damaged (h : BucketAlloc) (ptr : UInt32) : Prop :=
  (canaries h ptr).1 ≠ canary ∨ (canaries h ptr).2 ≠ canary

instance (h : BucketAlloc) (ptr : UInt32) : Decidable (Damaged h ptr) := inferInstanceAs (Decidable (_ ∨ _))

def free (h : BucketAlloc) (ptr : UInt32) : Except (UInt32 × UInt32) BucketAlloc :=
  if Damaged h ptr then .error (canaries h ptr) else .ok (h.free (ptr - 8))

def realloc (h : BucketAlloc) (ptr size : UInt32) (pages : List UInt32) :
    Except (UInt32 × UInt32) (Option (BucketAlloc × UInt32)) :=
  if Damaged h ptr then .error (canaries h ptr)
  else .ok ((h.realloc (ptr - 8) (size + 12) pages).map fun (h, data) => (fence h data size, data + 8))

end Libk

structure Block where
  ptr : UInt32
  size : UInt32
  fromCalloc : Bool
  deriving DecidableEq

structure CanaryHeap where
  alloc : BucketAlloc
  live : List Block

inductive CanaryCall
  | init (start length : UInt32)
  | malloc (size : UInt32) (pages : List UInt32)
  | calloc (num size : UInt32) (pages : List UInt32)
  | realloc (ptr size : UInt32) (pages : List UInt32)
  | free (ptr : UInt32)
  | write (ptr x : UInt32) (v : UInt8)

namespace CanaryHeap

def init (mem : Memory) : CanaryHeap := ⟨BucketAlloc.zeroed mem, []⟩

def fresh (s : CanaryHeap) : BucketAlloc := { s.alloc with written := [] }

def without (s : CanaryHeap) (ptr : UInt32) : List Block := s.live.filter fun b => b.ptr != ptr

def step (s : CanaryHeap) : CanaryCall → Option CanaryHeap
  | .init start length =>
    if FreshArea s.alloc.areas start length then
      some { s with alloc := s.fresh.init start length }
    else none
  | .malloc size pages =>
    if size < 0x40000000 then
      (Libk.malloc s.fresh size pages).map fun (h, p) => ⟨h, ⟨p, size, false⟩ :: s.live⟩
    else none
  | .calloc num size pages =>
    if num.toNat * size.toNat < 0x40000000 then
      (Libk.calloc s.fresh num size pages).map fun (h, p) => ⟨h, ⟨p, num * size, true⟩ :: s.live⟩
    else none
  | .realloc ptr size pages =>
    if ptr ∈ s.live.map Block.ptr ∧ size < 0x40000000 then
      match Libk.realloc s.fresh ptr size pages with
      | .ok (some (h, p)) => some ⟨h, ⟨p, size, false⟩ :: s.without ptr⟩
      | _ => none
    else none
  | .free ptr =>
    if ptr ∈ s.live.map Block.ptr then
      match Libk.free s.fresh ptr with
      | .ok h => some ⟨h, s.without ptr⟩
      | .error _ => none
    else none
  | .write ptr x v =>
    if ∃ b ∈ s.live, b.ptr = ptr ∧ ptr.toNat ≤ x.toNat ∧ x.toNat < ptr.toNat + b.size.toNat then
      some { s with alloc := { s.fresh with mem := Function.update s.alloc.mem x v } }
    else none

def Reports (s : CanaryHeap) : CanaryCall → Prop
  | .free ptr => ∃ e, Libk.free s.alloc ptr = .error e
  | .realloc ptr size pages => ∃ e, Libk.realloc s.alloc ptr size pages = .error e
  | _ => False

def Live (s : CanaryHeap) : CanaryCall → Prop
  | .free ptr => ptr ∈ s.live.map Block.ptr
  | .realloc ptr size _ => ptr ∈ s.live.map Block.ptr ∧ size < 0x40000000
  | _ => True

/-- No block of `calloc` is freed or resized, and `calloc` asks for at least one element and for less
than 4 GiB. -/
def Proper (s : CanaryHeap) : CanaryCall → Prop
  | .free ptr => ∀ b ∈ s.live, b.ptr = ptr → b.fromCalloc = false
  | .realloc ptr _ _ => ∀ b ∈ s.live, b.ptr = ptr → b.fromCalloc = false
  | .calloc num size _ => 1 ≤ num ∧ num.toNat * (size.toNat + 12) < 0x100000000
  | _ => True

instance (s : CanaryHeap) : ∀ call, Decidable (Proper s call)
  | .free ptr => inferInstanceAs (Decidable (∀ b ∈ s.live, b.ptr = ptr → b.fromCalloc = false))
  | .realloc ptr _ _ => inferInstanceAs (Decidable (∀ b ∈ s.live, b.ptr = ptr → b.fromCalloc = false))
  | .calloc num size _ => inferInstanceAs (Decidable (1 ≤ num ∧ num.toNat * (size.toNat + 12) < 0x100000000))
  | .init _ _ => inferInstanceAs (Decidable True)
  | .malloc _ _ => inferInstanceAs (Decidable True)
  | .write _ _ _ => inferInstanceAs (Decidable True)

end CanaryHeap

end OlliOS
