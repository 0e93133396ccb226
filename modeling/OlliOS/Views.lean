import OlliOS.Handles

/-!
# Views of files

A view passes a request on to the handle below it, shifted by its start and clipped to its length. Views
may be made of views: the list starts with the view that is asked, and the file is below the last one.
-/

namespace OlliOS

structure Window where
  start : UInt32
  length : UInt32
  fits : start.toNat + length.toNat ≤ 2 ^ 32

structure Request where
  size : UInt32
  pos : UInt32

namespace Window

/-- What a `FileViewHandle` asks the handle below it for. -/
def pass (w : Window) (r : Request) : Request := ⟨FileHandle.viewSize w.length r.size r.pos, r.pos + w.start⟩

/-- The request that is passed on lies in the window, shifted by exactly the start, and it is empty if it
starts behind the window. -/
structure Contains (w : Window) (r : Request) : Prop where
  inside : ∀ i < (w.pass r).size.toNat, r.pos.toNat + i < w.length.toNat
  shifted : ∀ i < (w.pass r).size.toNat, (w.pass r).pos.toNat + i = w.start.toNat + (r.pos.toNat + i)
  behind : w.length ≤ r.pos → (w.pass r).size = 0

def Confines : List Window → Request → Prop
  | [], _ => True
  | w :: ws, r => w.Contains r ∧ Confines ws (w.pass r)

/-- No view is asked for anything that starts behind its window, and no sum of position and size wraps. -/
def Unwrapped : List Window → Request → Prop
  | [], _ => True
  | w :: ws, r => (r.pos ≤ w.length ∧ r.pos.toNat + r.size.toNat < 2 ^ 32) ∧ Unwrapped ws (w.pass r)

def shift (ws : List Window) : ℕ := (ws.map (·.start.toNat)).sum

/-- The number of bytes of a request that are in all windows. -/
def clipped : List Window → (size pos : ℕ) → ℕ
  | [], size, _ => size
  | w :: ws, size, pos => clipped ws (min size (w.length.toNat - pos)) (pos + w.start.toNat)

end Window

variable {σ : Type}

/-- The handle of a view of a view, and so on, of the file of `handle`. -/
def FileHandle.views (handle : FileHandle σ) : List Window → FileHandle σ
  | [] => handle
  | w :: ws => (handle.views ws).fileView w.start w.length

/-- The views confine the request, and it equals one to the file at the sum of the starts. -/
structure FileHandle.Confined (handle : FileHandle σ) (ws : List Window) (r : Request) : Prop where
  windows : Window.Confines ws r
  read : ∀ s, (handle.views ws).read r.size r.pos s =
    handle.read (UInt32.ofNat (Window.clipped ws r.size.toNat r.pos.toNat))
      (UInt32.ofNat (r.pos.toNat + Window.shift ws)) s
  write : ∀ buffer s, (handle.views ws).write buffer r.size r.pos s =
    handle.write buffer (UInt32.ofNat (Window.clipped ws r.size.toNat r.pos.toNat))
      (UInt32.ofNat (r.pos.toNat + Window.shift ws)) s

end OlliOS
