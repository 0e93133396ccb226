import OlliOS.Lib.Fibre
import OlliOS.Lib.Stepping

/-!
# `std::shared_ptr`

Variables of the type `shared_ptr` come and go. An object and the `InfoBlock` that is allocated for it have the
same number. What was deleted is listed in its order, and `fault` tells whether a block was used that was not
there any more.
-/

namespace OlliOS

structure InfoBlock where
  weakCount : Int
  strongCount : Int
  deriving DecidableEq

structure SharedPtr where
  data : Option ℕ
  count : Option ℕ
  deriving DecidableEq

namespace SharedPtr

def null : SharedPtr := ⟨none, none⟩

end SharedPtr

structure PtrState (ι : Type*) where
  ptr : ι → Option SharedPtr
  blocks : ℕ → InfoBlock
  next : ℕ
  deleted : List ℕ
  freed : List ℕ
  fault : Bool

inductive PtrAct (ι : Type*)
  | default (i : ι)
  | construct (i : ι)
  | copyConstruct (i j : ι)
  | moveConstruct (i j : ι)
  | copyAssign (i j : ι)
  | moveAssign (i j : ι)
  | reset (i : ι)
  | resetTo (i : ι)
  | destroy (i : ι)

namespace PtrState

variable {ι : Type*} [DecidableEq ι]

def init : PtrState ι where
  ptr _ := none
  blocks _ := ⟨0, 0⟩
  next := 0
  deleted := []
  freed := []
  fault := false

def set (s : PtrState ι) (i : ι) (p : SharedPtr) : PtrState ι :=
  { s with ptr := Function.update s.ptr i (some p) }

def modify (s : PtrState ι) (count : Option ℕ) (f : InfoBlock → InfoBlock) : PtrState ι :=
  match count with
  | some b =>
    { s with
      blocks := Function.update s.blocks b (f (s.blocks b))
      fault := s.fault || decide (b ∈ s.freed) }
  | none => { s with fault := true }

def fresh (s : PtrState ι) (i : ι) : PtrState ι :=
  { s.set i ⟨some s.next, some s.next⟩ with
    blocks := Function.update s.blocks s.next ⟨1, 1⟩
    next := s.next + 1 }

def reset (s : PtrState ι) (i : ι) (p : SharedPtr) : PtrState ι :=
  match p.data with
  | none => s
  | some o =>
    let s := s.modify p.count fun b => { b with strongCount := b.strongCount - 1 }
    let s :=
      if p.count.any fun b => (s.blocks b).strongCount = 0 then { s with deleted := s.deleted ++ [o] }
      else s
    let s := s.modify p.count fun b => { b with weakCount := b.weakCount - 1 }
    let s :=
      if p.count.any fun b => (s.blocks b).weakCount = 0 then
        { s with freed := s.freed ++ p.count.toList }
      else s
    s.set i .null

def share (s : PtrState ι) (p : SharedPtr) : PtrState ι :=
  let s := s.modify p.count fun b => { b with strongCount := b.strongCount + 1 }
  s.modify p.count fun b => { b with weakCount := b.weakCount + 1 }

def step (s : PtrState ι) : PtrAct ι → Option (PtrState ι)
  | .default i => if s.ptr i = none then some (s.set i .null) else none
  | .construct i => if s.ptr i = none then some (s.fresh i) else none
  | .copyConstruct i j =>
    if s.ptr i = none then
      (s.ptr j).map fun q =>
        let s := s.set i q
        if q.count ≠ none then s.share q else s
    else none
  | .moveConstruct i j =>
    if s.ptr i = none then (s.ptr j).map fun q => (s.set i q).set j .null else none
  | .copyAssign i j =>
    (s.ptr i).bind fun p => (s.ptr j).map fun q =>
      if p.data = q.data then s
      else
        let s := (s.reset i p).set i q
        if q.data ≠ none then s.share q else s
  | .moveAssign i j =>
    (s.ptr i).bind fun p => (s.ptr j).map fun q =>
      if p.data = q.data then s.set j .null else ((s.reset i p).set i q).set j .null
  | .reset i => (s.ptr i).map (s.reset i)
  | .resetTo i => (s.ptr i).map fun p => (s.reset i p).fresh i
  | .destroy i => (s.ptr i).map fun p => { s.reset i p with ptr := Function.update (s.reset i p).ptr i none }

def held (s : PtrState ι) (i : ι) : Option ℕ := (s.ptr i).bind SharedPtr.data

def holders (s : PtrState ι) (o : ℕ) : Set ι := Fibre.fibre s.held (some o)

/-- The counts of every object are right: `strongCount` is the number of the variables that hold it, and
the object and its block were deleted once if there are none, and not if there are some. -/
structure Exact (s : PtrState ι) : Prop where
  strongCount : ∀ o < s.next, (s.blocks o).strongCount = (s.holders o).ncard
  deleted : ∀ o < s.next, s.deleted.count o = if (s.holders o).ncard = 0 then 1 else 0
  freed : ∀ o < s.next, s.freed.count o = if (s.holders o).ncard = 0 then 1 else 0
  fault : s.fault = false

/-- A move assignment is between variables that do not hold the same object. -/
def Apart (s : PtrState ι) : PtrAct ι → Prop
  | .moveAssign i j => s.held i = s.held j → s.held i = none
  | _ => True

instance (s : PtrState ι) (a : PtrAct ι) : Decidable (s.Apart a) := by
  unfold Apart
  split <;> infer_instance

end PtrState

end OlliOS
