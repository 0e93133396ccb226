import Mathlib.Data.Nat.Notation
import Mathlib.Logic.Function.Basic

/-!
# `LinkedList`

The nodes are in a heap, at addresses that `new` picks among those not in use. Using a node that is not
there gives `none`.
-/

namespace OlliOS

open Function

structure LinkedList.Node (α : Type) where
  next : Option ℕ
  t : α

structure LinkedList (α : Type) where
  nodes : ℕ → Option (LinkedList.Node α)
  last : Option ℕ

namespace LinkedList

variable {α : Type}

def empty : LinkedList α := ⟨fun _ => none, none⟩

def next (l : LinkedList α) (node : ℕ) : Option ℕ := (l.nodes node).bind Node.next

def setNext (l : LinkedList α) (node : ℕ) (next : Option ℕ) : Option (LinkedList α) :=
  (l.nodes node).map fun n => { l with nodes := update l.nodes node (some { n with next }) }

def link (l : LinkedList α) (node : ℕ) : Option (LinkedList α) :=
  match l.last with
  | none => { l with last := some node }.setNext node (some node)
  | some last => do
    let l ← l.setNext node (← l.next last)
    let l ← l.setNext last (some node)
    return { l with last := some node }

/-- `node` is what `new Node` returns. -/
def push (l : LinkedList α) (node : ℕ) (t : α) : Option (LinkedList α) :=
  if (l.nodes node).isSome then none
  else { l with nodes := update l.nodes node (some ⟨none, t⟩) }.link node

def pop (l : LinkedList α) : Option (LinkedList α × α) := do
  let last ← l.last
  let node ← l.next last
  let l ← l.setNext last (← l.next node)
  let l := if node = last then { l with last := none } else l
  let n ← l.nodes node
  return ({ l with nodes := update l.nodes node none }, n.t)

def isEmpty (l : LinkedList α) : Bool := l.last.isNone

/-- The nodes that are met on the way of `k` links from a node. -/
def follow (l : LinkedList α) : ℕ → ℕ → List ℕ
  | 0, _ => []
  | k + 1, node =>
    match l.next node with
    | none => []
    | some next => next :: l.follow k next

end LinkedList

structure ListState (α : Type) where
  list : LinkedList α
  pushed : List α
  popped : List α

inductive ListCall (α : Type)
  | push (node : ℕ) (t : α)
  | pop

namespace ListState

variable {α : Type}

def init : ListState α := ⟨.empty, [], []⟩

def step (s : ListState α) : ListCall α → Option (ListState α)
  | .push node t => (s.list.push node t).map fun l => { s with list := l, pushed := s.pushed ++ [t] }
  | .pop => s.list.pop.map fun (l, t) => { s with list := l, popped := s.popped ++ [t] }

/-- The nodes of the list are in a ring that the last one closes, they have what was pushed and not popped,
and a call returns. -/
structure Fifo (s : ListState α) : Prop where
  ring : ∃ ns : List ℕ, ns.Nodup ∧ (∀ a, (s.list.nodes a).isSome ↔ a ∈ ns) ∧ s.list.last = ns.getLast? ∧
    ∀ last ∈ s.list.last, s.list.follow ns.length last = ns
  empty : s.list.last = none ↔ ∀ a, s.list.nodes a = none
  order : s.popped <+: s.pushed
  isEmpty : s.list.isEmpty = false ↔ s.popped.length < s.pushed.length
  push : ∀ a t, s.list.nodes a = none → ∃ s', s.step (.push a t) = some s'
  pop : s.list.isEmpty = false → ∃ s', s.step .pop = some s'

end ListState

end OlliOS
