import OlliOS.Vfs

/-!
# Virtual keys

`VirtualKeycode` and `VirtualKeyEvent`, which the keyboard module, the kernel shell and the init
process have in common, and the characters that the last two give to keys in the same way.
-/

namespace OlliOS

inductive VirtualKeycode
  | invalid
  | a | b | c | d | e | f | g | h | i | j | k | l | m | n | o | p | q | r | s | t | u | v | w | x | y | z
  | openSquare | closeSquare | backslash | capsLock | escape
  | f1 | f2 | f3 | f4 | f5 | f6 | f7 | f8 | f9 | f10 | f11 | f12
  | printScreen | scrollLock | pause | space | backspace | tab | enter
  | lshift | rshift | lctrl | rctrl | lalt | ralt
  | nSlash | nMinus | nDot
  | uArrow | lArrow | dArrow | rArrow
  | insert | delete | home | «end» | pageUp | pageDown
  | colon | slash | dot | comma | quote | tilde
  | t0 | t1 | t2 | t3 | t4 | t5 | t6 | t7 | t8 | t9 | t10 | t11
  | n0 | n1 | n2 | n3 | n4 | n5 | n6 | n7 | n8 | n9 | nEnter | numLock
  deriving DecidableEq

def VirtualKeycode.code (vkey : VirtualKeycode) : UInt8 := .ofNat vkey.ctorIdx

structure VirtualKeyEvent where
  vkey : UInt8
  status : UInt8
  deriving DecidableEq

namespace VirtualKeyEvent

open VirtualKeycode

def isPressed (event : VirtualKeyEvent) : Bool := event.status &&& 0x01 = 0x01

def isShiftModifier (event : VirtualKeyEvent) : Bool := event.status &&& 0x02 ≠ 0

def pick (event : VirtualKeyEvent) (shifted plain : Char) : UInt8 :=
  if event.isShiftModifier then shifted.toUInt8 else plain.toUInt8

def toChar (event : VirtualKeyEvent) : Option UInt8 :=
  if a.code ≤ event.vkey ∧ event.vkey ≤ z.code then
    some (event.pick 'A' 'a' + (event.vkey - a.code))
  else if event.vkey = tab.code then some '\t'.toUInt8
  else if event.vkey = openSquare.code then some (event.pick '\x7b' '[')
  else if event.vkey = closeSquare.code then some (event.pick '\x7d' ']')
  else if event.vkey = tilde.code then some (event.pick '~' '\x60')
  else if event.vkey = colon.code then some (event.pick ':' ';')
  else if event.vkey = quote.code then some (event.pick '"' '\'')
  else if event.vkey = comma.code then some (event.pick '<' ',')
  else if event.vkey = VirtualKeycode.dot.code then some (event.pick '>' '.')
  else if event.vkey = backslash.code then some (event.pick '|' '\\')
  else if t0.code ≤ event.vkey ∧ event.vkey ≤ t11.code then
    (if event.isShiftModifier then
      chars [')', '!', '@', '#', '$', '%', '^', '&', '*', '(', '_', '+']
    else chars ['0', '1', '2', '3', '4', '5', '6', '7', '8', '9', '-', '='])[(event.vkey - t0.code).toNat]?
  else if event.vkey = space.code then some ' '.toUInt8
  else if event.vkey = nSlash.code ∨ event.vkey = VirtualKeycode.slash.code then some '/'.toUInt8
  else if event.vkey = nMinus.code then some '-'.toUInt8
  else if event.vkey = nDot.code then some '.'.toUInt8
  else none

section Dispatch

variable {α β : Type} {p : Prop} [Decidable p] {o x : Option α} {a : α}

theorem elim_ite {f : α → β} {y z w : β} (ha : f a = y) (ho : o.elim z f = w) :
    (if p then some a else o).elim z f = if p then y else w := by
  split_ifs
  · exact ha
  · exact ho

theorem of_ite_eq_some (h : (if p then x else o) = some a) (hx : x ≠ some a) : o = some a := by
  split_ifs at h
  · exact absurd h hx
  · exact h

end Dispatch

variable {event : VirtualKeyEvent} {P : UInt8 → Prop}

theorem forall_ite {p : Prop} [Decidable p] {x y : Option UInt8} (hx : p → ∀ c, x = some c → P c)
    (hy : ∀ c, y = some c → P c) : ∀ c, (if p then x else y) = some c → P c := by
  split_ifs with h
  · exact hx h
  · exact hy

theorem forall_pick {shifted plain : Char} (hs : P shifted.toUInt8) (hp : P plain.toUInt8) :
    ∀ c, some (event.pick shifted plain) = some c → P c := by
  rintro c h
  cases h
  unfold pick
  split_ifs
  · exact hs
  · exact hp

theorem toChar_visible : ∀ c, event.toChar = some c → c = '\t'.toUInt8 ∨ ' '.toUInt8 ≤ c := by
  have hsome : ∀ x : UInt8, (x = '\t'.toUInt8 ∨ ' '.toUInt8 ≤ x) →
      ∀ c, some x = some c → c = '\t'.toUInt8 ∨ ' '.toUInt8 ≤ c := by
    rintro x hx c h
    cases h
    exact hx
  have hall : ∀ l : List UInt8, (l.all fun c => decide (' '.toUInt8 ≤ c)) = true →
      ∀ c ∈ l, ' '.toUInt8 ≤ c := fun l hl c hc => of_decide_eq_true (List.all_eq_true.1 hl c hc)
  unfold toChar
  refine forall_ite ?_ ?_
  · rintro ⟨hge, hle⟩
    refine hsome _ (.inr ?_)
    have hle' : event.vkey.toNat ≤ 26 := hle
    have hsub : (event.vkey - a.code).toNat = event.vkey.toNat - 1 := UInt8.toNat_sub_of_le _ _ hge
    rw [UInt8.le_iff_toNat_le]
    unfold pick
    split_ifs
    · rw [UInt8.toNat_add, hsub]
      show 32 ≤ (65 + (event.vkey.toNat - 1)) % 256
      omega
    · rw [UInt8.toNat_add, hsub]
      show 32 ≤ (97 + (event.vkey.toNat - 1)) % 256
      omega
  refine forall_ite (fun _ => hsome _ (by decide)) ?_
  iterate 8 refine forall_ite (fun _ => forall_pick (by decide) (by decide)) ?_
  refine forall_ite ?_ ?_
  · rintro - c h
    refine .inr (hall _ ?_ c (List.mem_of_getElem? h))
    split_ifs <;> rfl
  iterate 4 refine forall_ite (fun _ => hsome _ (by decide)) ?_
  intro c h
  cases h

end VirtualKeyEvent

end OlliOS
