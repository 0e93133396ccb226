import Mathlib.Algebra.Group.Int.Defs
import Mathlib.Algebra.Group.Nat.Defs

/-!
# Words in a byte memory

Memory is a byte for each 32-bit address, and a word is four bytes, the lowest first, at any address. A store
is seen by a load at the same address and by no access apart from it; ranges are natural numbers, or go around
the end of the address space (`InBytes`).
-/

namespace Words

abbrev Memory := UInt32 → UInt8

def load (m : Memory) (a : UInt32) : UInt32 :=
  UInt32.ofNat ((m a).toNat + 0x100 * (m (a + 1)).toNat + 0x10000 * (m (a + 2)).toNat + 0x1000000 * (m (a + 3)).toNat)

def load16 (m : Memory) (a : UInt32) : UInt32 := UInt32.ofNat ((m a).toNat + 0x100 * (m (a + 1)).toNat)

def store (m : Memory) (a v : UInt32) : Memory := fun x =>
  if x = a then UInt8.ofNat v.toNat
  else if x = a + 1 then UInt8.ofNat (v.toNat / 0x100)
  else if x = a + 2 then UInt8.ofNat (v.toNat / 0x10000)
  else if x = a + 3 then UInt8.ofNat (v.toNat / 0x1000000)
  else m x

variable {m m' : Memory} {a b v x : UInt32} {k : UInt32} {n p : ℕ}

theorem toNat_add (h : a.toNat + b.toNat < 2 ^ 32) : (a + b).toNat = a.toNat + b.toNat := by
  rw [UInt32.toNat_add, Nat.mod_eq_of_lt h]

theorem add_ne_self (hb : b ≠ 0) : a + b ≠ a := by
  intro h
  have hb' : b.toNat ≠ 0 := fun h0 => hb (UInt32.toNat_inj.1 h0)
  have hlt := b.toNat_lt
  have hn := congrArg UInt32.toNat h
  rw [UInt32.toNat_add] at hn
  omega

theorem load_store : load (store m a v) a = v := by
  have h1 : a + 1 ≠ a := add_ne_self (by decide)
  have h2 : a + 2 ≠ a := add_ne_self (by decide)
  have h3 : a + 3 ≠ a := add_ne_self (by decide)
  have h21 : a + 2 ≠ a + 1 := by
    rw [show a + 2 = a + 1 + 1 by rw [UInt32.add_assoc]; rfl]
    exact add_ne_self (by decide)
  have h31 : a + 3 ≠ a + 1 := by
    rw [show a + 3 = a + 1 + 2 by rw [UInt32.add_assoc]; rfl]
    exact add_ne_self (by decide)
  have h32 : a + 3 ≠ a + 2 := by
    rw [show a + 3 = a + 2 + 1 by rw [UInt32.add_assoc]; rfl]
    exact add_ne_self (by decide)
  have hv := v.toNat_lt
  apply UInt32.toNat_inj.1
  simp only [load, store, if_true, h1, h2, h3, h21, h31, h32, if_false, UInt32.toNat_ofNat', UInt8.toNat_ofNat']
  omega

theorem store_of_out (ha : a.toNat + 4 ≤ 2 ^ 32) (hx : x.toNat < a.toNat ∨ a.toNat + 4 ≤ x.toNat) :
    store m a v x = m x := by
  have h1 : (a + 1).toNat = a.toNat + 1 := toNat_add (by show a.toNat + 1 < _; omega)
  have h2 : (a + 2).toNat = a.toNat + 2 := toNat_add (by show a.toNat + 2 < _; omega)
  have h3 : (a + 3).toNat = a.toNat + 3 := toNat_add (by show a.toNat + 3 < _; omega)
  have hne : x ≠ a ∧ x ≠ a + 1 ∧ x ≠ a + 2 ∧ x ≠ a + 3 := by refine ⟨?_, ?_, ?_, ?_⟩ <;> rintro rfl <;> omega
  simp [store, hne.1, hne.2.1, hne.2.2.1, hne.2.2.2]

theorem load_congr (ha : a.toNat + 4 ≤ 2 ^ 32)
    (h : ∀ x, a.toNat ≤ x.toNat → x.toNat < a.toNat + 4 → m' x = m x) : load m' a = load m a := by
  have h1 : (a + 1).toNat = a.toNat + 1 := toNat_add (by show a.toNat + 1 < _; omega)
  have h2 : (a + 2).toNat = a.toNat + 2 := toNat_add (by show a.toNat + 2 < _; omega)
  have h3 : (a + 3).toNat = a.toNat + 3 := toNat_add (by show a.toNat + 3 < _; omega)
  unfold load
  rw [h a (by omega) (by omega), h (a + 1) (by omega) (by omega), h (a + 2) (by omega) (by omega),
    h (a + 3) (by omega) (by omega)]

theorem load_store_of_apart (ha : a.toNat + 4 ≤ 2 ^ 32) (hb : b.toNat + 4 ≤ 2 ^ 32)
    (hab : b.toNat + 4 ≤ a.toNat ∨ a.toNat + 4 ≤ b.toNat) : load (store m a v) b = load m b :=
  load_congr hb fun _ _ _ => store_of_out ha (by omega)

/-- The byte is one of the `n` from `a` on; the range may go over the end of the address space. -/
def InBytes (a : UInt32) (n : ℕ) (x : UInt32) : Prop := (x - a).toNat < n

instance (a : UInt32) (n : ℕ) (x : UInt32) : Decidable (InBytes a n x) := inferInstanceAs (Decidable (_ < _))

theorem inBytes_add (h : k.toNat < n) : InBytes a n (a + k) := by
  unfold InBytes
  rwa [UInt32.add_comm, UInt32.add_sub_cancel]

theorem store_of_not_inBytes (h : ¬ InBytes a 4 x) : store m a v x = m x := by
  have hne : x ≠ a ∧ x ≠ a + 1 ∧ x ≠ a + 2 ∧ x ≠ a + 3 := by
    refine ⟨?_, ?_, ?_, ?_⟩ <;> rintro rfl
    · exact h (by simpa using inBytes_add (k := 0) (by decide))
    · exact h (inBytes_add (by decide))
    · exact h (inBytes_add (by decide))
    · exact h (inBytes_add (by decide))
  simp [store, hne.1, hne.2.1, hne.2.2.1, hne.2.2.2]

theorem load_congr_inBytes (h : ∀ x, InBytes a 4 x → m' x = m x) : load m' a = load m a := by
  have h0 : InBytes a 4 a := by simpa using inBytes_add (k := 0) (by decide)
  unfold load
  rw [h a h0, h (a + 1) (inBytes_add (by decide)), h (a + 2) (inBytes_add (by decide)),
    h (a + 3) (inBytes_add (by decide))]

theorem eq_of_load_eq (h : load m a = load m' a) (hx : InBytes a 4 x) : m x = m' x := by
  have hsum := congrArg UInt32.toNat h
  simp only [load, UInt32.toNat_ofNat'] at hsum
  have h0 := (m a).toNat_lt
  have h1 := (m (a + 1)).toNat_lt
  have h2 := (m (a + 2)).toNat_lt
  have h3 := (m (a + 3)).toNat_lt
  have h0' := (m' a).toNat_lt
  have h1' := (m' (a + 1)).toNat_lt
  have h2' := (m' (a + 2)).toNat_lt
  have h3' := (m' (a + 3)).toNat_lt
  have hx' : x = a + (x - a) := by rw [UInt32.add_comm, UInt32.sub_add_cancel]
  have hcases : x - a = 0 ∨ x - a = 1 ∨ x - a = 2 ∨ x - a = 3 := by
    unfold InBytes at hx
    simp only [← UInt32.toNat_inj]
    change _ = 0 ∨ _ = 1 ∨ _ = 2 ∨ _ = 3
    omega
  rw [hx']
  apply UInt8.toNat_inj.mp
  rcases hcases with hk | hk | hk | hk <;> rw [hk]
  · rw [UInt32.add_zero]
    omega
  · omega
  · omega
  · omega

theorem load16_congr_inBytes (h : ∀ x, InBytes a 2 x → m' x = m x) : load16 m' a = load16 m a := by
  have h0 : InBytes a 2 a := by simpa using inBytes_add (k := 0) (by decide)
  unfold load16
  rw [h a h0, h (a + 1) (inBytes_add (by decide))]

theorem inBytes_add_iff (h : k.toNat + p ≤ 2 ^ 32) :
    InBytes (a + k) p x ↔ k.toNat ≤ (x - a).toNat ∧ (x - a).toNat < k.toNat + p := by
  have hsub : x - (a + k) = (x - a) - k := by
    rw [UInt32.sub_eq_add_neg, UInt32.neg_add, UInt32.sub_eq_add_neg (-a), ← UInt32.add_assoc,
      ← UInt32.sub_eq_add_neg, ← UInt32.sub_eq_add_neg]
  unfold InBytes
  rw [hsub, UInt32.toNat_sub]
  have hx := (x - a).toNat_lt
  omega

theorem InBytes.of_part (h : InBytes (a + k) p x) (hp : k.toNat + p ≤ n) : InBytes a n x := by
  unfold InBytes at h ⊢
  have hsum : x - a = (x - (a + k)) + k := by
    rw [UInt32.sub_eq_add_neg, UInt32.sub_eq_add_neg, UInt32.neg_add, UInt32.sub_eq_add_neg]
    rw [UInt32.add_assoc x, UInt32.add_assoc (-a), UInt32.add_left_neg, UInt32.add_zero]
  rw [hsum, UInt32.toNat_add]
  omega

def SameOutside (lo hi : ℕ) (m m' : Memory) : Prop := ∀ x : UInt32, x.toNat < lo ∨ hi ≤ x.toNat → m' x = m x

namespace SameOutside

variable {lo hi : ℕ} {m'' : Memory}

theorem refl (m : Memory) : SameOutside lo hi m m := fun _ _ => rfl

theorem trans (h : SameOutside lo hi m m') (h' : SameOutside lo hi m' m'') : SameOutside lo hi m m'' :=
  fun x hx => (h' x hx).trans (h x hx)

theorem store (hlo : lo ≤ a.toNat) (hhi : a.toNat + 4 ≤ hi) (h : hi ≤ 2 ^ 32) :
    SameOutside lo hi m (Words.store m a v) :=
  fun _ _ => store_of_out (by omega) (by omega)

theorem load (h : SameOutside lo hi m m') (ha : a.toNat + 4 ≤ 2 ^ 32)
    (hout : a.toNat + 4 ≤ lo ∨ hi ≤ a.toNat) : load m' a = load m a :=
  load_congr ha fun x _ _ => h x (by omega)

end SameOutside

section Signed

theorem toInt_signed (i : Int32) : i.toInt =
    if 2 * i.toUInt32.toNat < 2 ^ 32 then (i.toUInt32.toNat : ℤ) else i.toUInt32.toNat - 2 ^ 32 :=
  BitVec.toInt_eq_toNat_cond i.toBitVec

theorem toNat_add_signed {i : Int32} (hlow : 0 ≤ (a.toNat : ℤ) + i.toInt)
    (hhigh : (a.toNat : ℤ) + i.toInt < 2 ^ 32) : ((a + i.toUInt32).toNat : ℤ) = a.toNat + i.toInt := by
  rw [toInt_signed] at *
  rw [UInt32.toNat_add]
  split at hlow <;> split <;> omega

end Signed

end Words
