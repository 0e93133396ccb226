import Mathlib.Algebra.Order.BigOperators.Group.Finset
import OlliOS.Descriptors

/-!
# Reference counts of descriptors

The heap is described relative to a count of the slots (`HeapOk`), which every operation on a `shared_ptr`
moves where it moves a slot.
-/

namespace OlliOS

open Stepping List Option DescState DescHeap

def hit (v : Option DescPtr) (e : PipeEnd) : Int :=
  if v = some (some e) then 1 else 0

@[simp] lemma hit_none (e : PipeEnd) : hit none e = 0 := rfl

@[simp] lemma hit_self (e : PipeEnd) : hit (some (some e)) e = 1 := by simp [hit]

@[simp] lemma hit_null (e : PipeEnd) : hit (some none) e = 0 := rfl

lemma hit_of_ne {e x : PipeEnd} (h : e ≠ x) : hit (some (some e)) x = 0 := by simp [hit, h]

lemma hit_nonneg (v : Option DescPtr) (e : PipeEnd) : 0 ≤ hit v e := by
  unfold hit
  split_ifs <;> omega

/-- The stream of a pipe to whose read end `rd` slots refer, and `wr` to its write end. -/
def PipeStream.held (rd wr : Int) : PipeStream where
  closed := wr = 0
  strongCount := (if rd = 0 then 0 else 1) + if wr = 0 then 0 else 1
  freed := decide (rd = 0) && decide (wr = 0)

/-- The heap is as it should be when `r e` slots refer to `e`. -/
structure HeapOk (h : DescHeap) (r : PipeEnd → Int) : Prop where
  info : ∀ e, e.1 < h.next → h.info e = ⟨r e, r e⟩
  closes : ∀ e, e.1 < h.next → h.closes e = if r e = 0 then 1 else 0
  fresh : ∀ e, h.next ≤ e.1 → h.closes e = 0
  streams : ∀ k < h.next, h.streams k = .held (r (k, .read)) (r (k, .write))

namespace HeapOk

variable {h : DescHeap} {r r' : PipeEnd → Int} {e : PipeEnd}

variable (hok : HeapOk h r)

include hok

lemma congr (hr : ∀ x, r' x = r x) : HeapOk h r' := by
  rwa [show r' = r from funext hr]

lemma closeHandle (he : e.1 < h.next) (hr : r e = 1) :
    HeapOk (({ h with info := Function.update h.info e ⟨0, 0⟩ } : DescHeap).closeHandle e)
      (fun x => r x - hit (some (some e)) x) := by
  refine ⟨fun x hx => ?_, fun x hx => ?_, fun x hx => ?_, fun j hj => ?_⟩
  · rcases eq_or_ne x e with rfl | hne
    · simp [DescHeap.closeHandle, hr]
    · simp [DescHeap.closeHandle, hne, hit_of_ne hne.symm, hok.info x hx]
  · rcases eq_or_ne x e with rfl | hne
    · simp [DescHeap.closeHandle, hr, hok.closes _ hx]
    · simp [DescHeap.closeHandle, hne, hit_of_ne hne.symm, hok.closes x hx]
  · have hne : x ≠ e := by
      rintro rfl
      exact absurd he (Nat.not_lt.2 hx)
    simp [DescHeap.closeHandle, hne, hok.fresh x hx]
  · obtain ⟨k, m⟩ := e
    have hst := hok.streams j hj
    rcases eq_or_ne j k with rfl | hne
    · cases m <;> simp only [DescHeap.closeHandle, Function.update_self, hst] <;> grind [hit, PipeStream.held]
    · have hne' : ∀ m', (k, m) ≠ (j, m') := fun m' heq => hne (congrArg Prod.fst heq).symm
      simp [DescHeap.closeHandle, hne, hit_of_ne (hne' _), hst]

lemma recount (d : Int) (he : e.1 < h.next) (hr : r e ≠ 0) (hd : r e + d ≠ 0) :
    HeapOk { h with info := Function.update h.info e ⟨(h.info e).weakCount + d, (h.info e).strongCount + d⟩ }
      (fun x => r x + d * hit (some (some e)) x) := by
  have hzero : ∀ x, r x + d * hit (some (some e)) x = 0 ↔ r x = 0 := by
    intro x
    rcases eq_or_ne e x with rfl | hne
    · simp [hr, hd]
    · simp [hit_of_ne hne]
  refine ⟨fun x hx => ?_, fun x hx => ?_, hok.fresh, fun j hj => ?_⟩
  · rcases eq_or_ne x e with rfl | hne
    · simp [hok.info x he]
    · simp [hne, hit_of_ne hne.symm, hok.info x hx]
  · simp only [hzero, hok.closes x hx]
  · simp only [PipeStream.held, hzero, hok.streams j hj]

lemma reset (v : DescPtr) (hv : ∀ e, v = some e → e.1 < h.next ∧ 0 < r e) :
    HeapOk (h.reset v) (fun x => r x - hit (some v) x) := by
  rcases v with _ | e
  · exact hok.congr (by simp)
  obtain ⟨he, hr⟩ := hv e rfl
  have hi := hok.info e he
  simp only [DescHeap.reset, hi]
  split_ifs with hlast
  · simp only [hlast]
    exact hok.closeHandle he (by omega)
  · have hrest := hok.recount (-1) he (by omega) (by omega)
    simp only [hi] at hrest
    exact hrest.congr fun x => by omega

lemma copy (v : DescPtr) (hv : ∀ e, v = some e → e.1 < h.next ∧ 0 < r e) :
    HeapOk (h.copy v) (fun x => r x + hit (some v) x) := by
  rcases v with _ | e
  · exact hok.congr (by simp)
  obtain ⟨he, hr⟩ := hv e rfl
  exact (hok.recount 1 he (by omega) (by omega)).congr fun x => by omega

lemma newPipe (hr : ∀ m, r (h.next, m) = 0) : HeapOk h.newPipe fun x =>
      r x + hit (some (some (h.next, .read))) x + hit (some (some (h.next, .write))) x := by
  have hold : ∀ {k} {m m' : WriteMode}, k < h.next → (h.next, m) ≠ (k, m') := by
    rintro k m m' hk ⟨⟩
    exact absurd hk (Nat.lt_irrefl _)
  refine ⟨fun ⟨k, m⟩ hx => ?_, fun ⟨k, m⟩ hx => ?_, fun x hx => hok.fresh x (Nat.le_of_succ_le hx),
    fun k hk => ?_⟩
  · rcases Nat.lt_succ_iff_lt_or_eq.1 hx with hk | rfl
    · simp [DescHeap.newPipe, Nat.ne_of_lt hk, hit_of_ne (hold hk), hok.info _ hk]
    · cases m <;> simp [DescHeap.newPipe, hr, hit]
  · rcases Nat.lt_succ_iff_lt_or_eq.1 hx with hk | rfl
    · simp [DescHeap.newPipe, hit_of_ne (hold hk), hok.closes _ hk]
    · cases m <;> simp [DescHeap.newPipe, hr, hit, hok.fresh]
  · rcases Nat.lt_succ_iff_lt_or_eq.1 hk with hk | rfl
    · simp [DescHeap.newPipe, Nat.ne_of_lt hk, hit_of_ne (hold hk), hok.streams k hk]
    · simp [DescHeap.newPipe, hr, hit, PipeStream.held]

end HeapOk

namespace DescState

variable {P : Type*} [DecidableEq P] {s : DescState P} {p q : P} {i j : ℕ} {e : PipeEnd}

lemma setSlot_bindings (v : Option DescPtr) :
    (s.setSlot p i v).bindings q j = if q = p ∧ j = i then v else s.bindings q j := by
  rcases eq_or_ne q p with rfl | hq
  · rcases eq_or_ne j i with rfl | hj
    · simp [setSlot]
    · simp [setSlot, hj]
  · simp [setSlot, hq]

@[simp] lemma setSlot_self (v : Option DescPtr) : (s.setSlot p i v).bindings p i = v := by simp [setSlot]

lemma setSlot_of_ne (v : Option DescPtr) (h : j ≠ i) : (s.setSlot p i v).bindings p j = s.bindings p j := by
  simp [setSlot, h]

omit [DecidableEq P] in
lemma newResource_some (h : s.newResource p = some i) : i < maxCount ∧ s.bindings p i = none := by
  have hmem := mem_of_find?_eq_some h
  have hnone := find?_some h
  exact ⟨mem_range.1 hmem, by simpa using hnone⟩

lemma freeResource_bindings (hi : i < maxCount) :
    (s.freeResource p i).bindings q j = if q = p ∧ j = i then none else s.bindings q j := by
  unfold freeResource
  rw [if_pos hi]
  split
  · exact setSlot_bindings none
  · rename_i hb
    split_ifs with hq
    · rw [hq.1, hq.2, hb]
    · rfl

lemma freeResource_live : (s.freeResource p i).live = s.live := by
  unfold freeResource
  split_ifs
  · split <;> rfl
  · rfl

lemma Refers.setSlot (h : s.Refers e) (hb : s.bindings p i ≠ some (some e)) (v : Option DescPtr) :
    (s.setSlot p i v).Refers e := by
  obtain ⟨q, hq, j, hj, hqj⟩ := h
  refine ⟨q, hq, j, hj, ?_⟩
  rwa [setSlot_bindings, if_neg]
  rintro ⟨rfl, rfl⟩
  exact hb hqj

lemma Refers.setNull (h : s.Refers e) (hb : s.bindings p i = none) : (s.setSlot p i (some none)).Refers e :=
  h.setSlot (by simp [hb]) _

section Refs

variable [Fintype P]

def refs (s : DescState P) (e : PipeEnd) : Int := ∑ p, ∑ i ∈ Finset.range maxCount, hit (s.bindings p i) e

lemma refs_setSlot (hi : i < maxCount) (v : Option DescPtr) :
    (s.setSlot p i v).refs e = s.refs e - hit (s.bindings p i) e + hit v e := by
  have hpoint : ∀ q j, hit ((s.setSlot p i v).bindings q j) e = hit (s.bindings q j) e +
      if q = p then (if j = i then hit v e - hit (s.bindings p i) e else 0) else 0 := by
    intro q j
    rw [setSlot_bindings]
    grind
  have hsum : ∑ q, ∑ j ∈ Finset.range maxCount,
      (if q = p then (if j = i then hit v e - hit (s.bindings p i) e else 0) else 0) =
      hit v e - hit (s.bindings p i) e := by
    simp [hi]
  simp only [refs, hpoint, Finset.sum_add_distrib]
  omega

omit [DecidableEq P] in
lemma refs_pos (hi : i < maxCount) (h : s.bindings p i = some (some e)) : 0 < s.refs e := by
  have hrow : ∀ q, 0 ≤ ∑ j ∈ Finset.range maxCount, hit (s.bindings q j) e :=
    fun q => Finset.sum_nonneg fun j _ => hit_nonneg _ _
  calc (0 : Int) < hit (s.bindings p i) e := by rw [h, hit_self]; omega
    _ ≤ ∑ j ∈ Finset.range maxCount, hit (s.bindings p j) e :=
      Finset.single_le_sum (fun j _ => hit_nonneg _ _) (Finset.mem_range.2 hi)
    _ ≤ s.refs e := Finset.single_le_sum
      (fun q _ => hrow q) (Finset.mem_univ p)

omit [DecidableEq P] in
lemma refs_eq_zero (h : ∀ p, ∀ i < maxCount, s.bindings p i ≠ some (some e)) : s.refs e = 0 :=
  Finset.sum_eq_zero fun p _ => Finset.sum_eq_zero fun i hi =>
    if_neg (h p i (Finset.mem_range.1 hi))

end Refs

end DescState

/-- The heap agrees with the tables, and a used slot is one of a live process's 1024. -/
structure DescInv {P : Type*} [DecidableEq P] [Fintype P] (s : DescState P) : Prop where
  heap : HeapOk s.heap s.refs
  slot : ∀ p i v, s.bindings p i = some v → i < maxCount ∧ s.live p = true
  made : ∀ p i e, s.bindings p i = some (some e) → e.1 < s.heap.next

namespace DescInv

variable {P : Type*} [DecidableEq P] [Fintype P] {s : DescState P} {p c : P} {i : ℕ}
  {e : PipeEnd}

variable (h : DescInv s) {v : DescPtr}

include h

lemma refers_iff : s.Refers e ↔ 0 < s.refs e := by
  constructor
  · rintro ⟨p, -, i, hi, hb⟩
    exact refs_pos hi hb
  · intro hpos
    by_contra hno
    refine absurd (refs_eq_zero fun p i hi hb => hno ?_) (by omega : s.refs e ≠ 0)
    exact ⟨p, (h.slot p i _ hb).2, i, hi, hb⟩

lemma refs_of_not_refers (hno : ¬ s.Refers e) : s.refs e = 0 :=
  refs_eq_zero fun p i hi hb => hno ⟨p, (h.slot p i _ hb).2, i, hi, hb⟩

lemma exact : s.Exact := by
  intro k hk
  refine ⟨?_, fun m => ⟨fun hr => ?_, fun hr => ?_⟩⟩
  · rw [h.heap.streams k hk, PipeStream.held, decide_eq_true_iff]
    refine ⟨fun h0 hr => ?_, h.refs_of_not_refers⟩
    have := h.refers_iff.1 hr
    omega
  · have := h.refers_iff.1 hr
    rw [h.heap.closes (k, m) hk, if_neg (by omega)]
  · rw [h.heap.closes (k, m) hk, if_pos (h.refs_of_not_refers hr)]

lemma fill (hi : i < maxCount) (hp : s.live p = true)
    (hfree : ∀ x, hit (s.bindings p i) x = 0) (hv : ∀ e, v = some e → s.Refers e) :
    DescInv { s.setSlot p i (some v) with heap := s.heap.copy v } := by
  have hcopy : (s.heap.copy v).next = s.heap.next := by cases v <;> rfl
  have hmade : ∀ e, v = some e → e.1 < s.heap.next := by
    intro e he
    obtain ⟨q, -, j, -, hj⟩ := hv e he
    exact h.made q j e hj
  refine ⟨?_, ?_, ?_⟩
  · refine (h.heap.copy v fun e he => ⟨hmade e he, h.refers_iff.1 (hv e he)⟩).congr fun x => ?_
    show (s.setSlot p i (some v)).refs x = _
    rw [refs_setSlot hi, hfree]
    omega
  · intro q j w hb
    simp only [setSlot_bindings] at hb
    split_ifs at hb with hne
    · exact ⟨hne.2 ▸ hi, hne.1 ▸ hp⟩
    · exact h.slot q j w hb
  · intro q j x hb
    simp only [hcopy, setSlot_bindings] at hb ⊢
    split_ifs at hb
    · exact hmade x (some.inj hb)
    · exact h.made q j x hb

lemma clear (hb : s.bindings p i = some v) : DescInv { s.setSlot p i none with heap := s.heap.reset v } := by
  have hi := (h.slot p i v hb).1
  have hreset : (s.heap.reset v).next = s.heap.next := by
    rcases v with _ | e
    · rfl
    · unfold reset
      simp only
      split_ifs <;> rfl
  have hother : ∀ q j w, (s.setSlot p i none).bindings q j = some w → s.bindings q j = some w := by
    intro q j w hw
    rw [setSlot_bindings] at hw
    split_ifs at hw
    exact hw
  refine ⟨?_, fun q j w hw => h.slot q j w (hother q j w hw), fun q j x hw => ?_⟩
  · refine (h.heap.reset v fun e he => ?_).congr fun x => ?_
    · subst he
      exact ⟨h.made p i e hb, refs_pos hi hb⟩
    · show (s.setSlot p i none).refs x = _
      rw [refs_setSlot hi, hb, hit_none]
      omega
  · simp only [hreset]
    exact h.made q j x (hother q j _ hw)

lemma setNull (hi : i < maxCount) (hp : s.live p = true)
    (hb : s.bindings p i = none) : DescInv (s.setSlot p i (some none)) :=
  h.fill (v := none) hi hp (by simp [hb]) (by simp)

lemma freeResource (p : P) (i : ℕ) : DescInv (s.freeResource p i) := by
  unfold DescState.freeResource
  split_ifs with hi
  · split
    · rename_i v hb
      exact h.clear hb
    · exact h
  · exact h

lemma assign (hb : s.bindings p i = some none) {old : DescPtr}
    (hold : ∀ e, old = some e → s.Refers e) : DescInv (s.assign p i none old) := by
  obtain ⟨hi, hp⟩ := h.slot p i none hb
  unfold DescState.assign
  split_ifs
  · exact h
  · exact h.fill hi hp (by simp [hb]) hold

lemma freeUpTo (p : P) (n : ℕ) (hn : n ≤ maxCount) :
    let t := (List.range n).foldl (fun s i => s.freeResource p i) s
    DescInv t ∧ t.live = s.live ∧ (∀ i < n, t.bindings p i = none) ∧
      ∀ q, q ≠ p → t.bindings q = s.bindings q := by
  induction n with
  | zero => simp [h]
  | succ n ih =>
    obtain ⟨hI, hlive, hnone, hsame⟩ := ih (by omega)
    simp only [range_succ, foldl_append, foldl_cons, foldl_nil]
    refine ⟨hI.freeResource p n, by rw [freeResource_live, hlive], fun i hi => ?_, fun q hq => ?_⟩
    · rw [freeResource_bindings (by omega)]
      split_ifs with hne
      · rfl
      · exact hnone i ((Nat.lt_succ_iff_lt_or_eq.1 hi).resolve_right fun heq => hne ⟨rfl, heq⟩)
    · rw [← hsame q hq]
      exact funext fun i => by rw [freeResource_bindings (by omega), if_neg (fun hne => hq hne.1)]

lemma freeAllResources (p : P) : DescInv (s.freeAllResources p) ∧ (s.freeAllResources p).live = s.live ∧
      (∀ i, (s.freeAllResources p).bindings p i = none) ∧
      ∀ q, q ≠ p → (s.freeAllResources p).bindings q = s.bindings q := by
  obtain ⟨hI, hlive, hnone, hsame⟩ := h.freeUpTo p maxCount (Nat.le_refl maxCount)
  unfold DescState.freeAllResources
  refine ⟨hI, hlive, fun i => ?_, hsame⟩
  by_contra hsome
  obtain ⟨v, hv⟩ := ne_none_iff_exists'.1 hsome
  exact hsome (hnone i (hI.slot p i v hv).1)

lemma destroy (p : P) : DescInv (s.destroy p) := by
  obtain ⟨hI, -, hnone, -⟩ := h.freeAllResources p
  unfold DescState.destroy
  generalize s.freeAllResources p = t at hI hnone ⊢
  refine ⟨hI.heap, fun q i v hb => ?_, hI.made⟩
  obtain ⟨hi, hq⟩ := hI.slot q i v hb
  have hne : q ≠ p := by
    rintro rfl
    exact absurd hb (by simp [hnone i])
  exact ⟨hi, by simpa [hne] using hq⟩

lemma enliven (p : P) : DescInv { s with live := Function.update s.live p true } := by
  refine ⟨h.heap, fun q i v hb => ?_, h.made⟩
  obtain ⟨hi, hq⟩ := h.slot q i v hb
  refine ⟨hi, ?_⟩
  rcases eq_or_ne q p with rfl | hne
  · simp
  · simpa [hne] using hq

lemma copyUpTo (hc : s.live c = true) (hnone : ∀ i, s.bindings c i = none) (n : ℕ) (hn : n ≤ maxCount) :
    let t := (List.range n).foldl (copySlot p c) s
    DescInv t ∧ t.live c = true ∧ ∀ i, n ≤ i → t.bindings c i = none := by
  induction n with
  | zero => simp [h, hc, hnone]
  | succ n ih =>
    obtain ⟨hI, hlive, hrest⟩ := ih (by omega)
    simp only [range_succ, foldl_append, foldl_cons]
    generalize (List.range n).foldl (copySlot p c) s = t at hI hlive hrest ⊢
    have hn0 := hrest n (le_refl n)
    unfold copySlot
    split
    · have hset : t.setSlot c n none = t := by
        simp [setSlot, ← hn0]
      rw [hset]
      exact ⟨hI, hlive, fun i hi => hrest i (by omega)⟩
    · rename_i v hb
      refine ⟨hI.fill (by omega) hlive (by simp [hn0]) fun e he => ?_, hlive, fun i hi => ?_⟩
      · subst he
        obtain ⟨hi, hp⟩ := hI.slot p n _ hb
        exact ⟨p, hp, n, hi, hb⟩
      · rw [← hrest i (by omega)]
        exact setSlot_of_ne _ (by omega)

lemma fork (p c : P) : DescInv (s.fork p c) := by
  obtain ⟨hI, hlive, hnone, -⟩ := (h.enliven c).freeAllResources c
  unfold DescState.fork
  exact (hI.copyUpTo (by simp [hlive]) hnone maxCount (Nat.le_refl maxCount)).1

lemma close (p : P) (file : Int) (beyond : Option DescPtr) : DescInv (s.close p file beyond).1 := by
  unfold DescState.close
  split
  · exact h
  · exact h.freeResource p _

lemma install {rd wr : ℕ} (hne : wr ≠ rd) (hrd : s.bindings p rd = some none) (hwr : s.bindings p wr = some none) :
    DescInv ((({ s with heap := s.heap.newPipe } : DescState P).setSlot p rd
      (some (some (s.heap.next, .read)))).setSlot p wr (some (some (s.heap.next, .write)))) := by
  have hunmade : ∀ m, s.refs (s.heap.next, m) = 0 := fun m =>
    refs_eq_zero fun q i _ hb => Nat.lt_irrefl _ (h.made q i _ hb)
  obtain ⟨hird, hp⟩ := h.slot p rd _ hrd
  obtain ⟨hiwr, -⟩ := h.slot p wr _ hwr
  refine ⟨(h.heap.newPipe hunmade).congr fun x => ?_, fun q j v hb => ?_, fun q j x hb => ?_⟩
  · rw [refs_setSlot hiwr, refs_setSlot hird, setSlot_of_ne _ hne]
    simp only [hrd, hwr]
    show s.refs x - 0 + _ - 0 + _ = _
    omega
  · simp only [setSlot_bindings] at hb
    split_ifs at hb with hw hr
    · exact ⟨hw.2 ▸ hiwr, hw.1 ▸ hp⟩
    · exact ⟨hr.2 ▸ hird, hr.1 ▸ hp⟩
    · exact h.slot q j v hb
  · simp only [setSlot_bindings] at hb
    split_ifs at hb
    · cases hb
      exact Nat.lt_succ_self _
    · cases hb
      exact Nat.lt_succ_self _
    · exact Nat.lt_succ_of_lt (h.made q j x hb)

lemma pipe (hp : s.live p = true) : DescInv (s.pipe p).1 := by
  unfold DescState.pipe
  split
  · exact h
  rename_i rd hrd
  obtain ⟨hrd, hbr⟩ := newResource_some hrd
  have h1 := h.setNull hrd hp hbr
  simp only
  split
  · exact h1.freeResource p rd
  rename_i wr hwr
  obtain ⟨hwr, hbw⟩ := newResource_some hwr
  have hne : wr ≠ rd := by
    rintro rfl
    simp at hbw
  have h2 := h1.setNull hwr hp hbw
  refine h2.install hne ?_ (setSlot_self _)
  rw [setSlot_of_ne _ hne.symm, setSlot_self]

lemma dup (hp : s.live p = true) {filedes : Int} {beyond : Option DescPtr}
    (hok : s.Traced (.dup p filedes beyond)) : DescInv (s.dup p filedes beyond).1 := by
  unfold DescState.dup
  split
  · exact h
  rename_i old hold
  split
  · exact h
  rename_i i hi
  have hfull : s.newResource p ≠ none := by simp [hi]
  obtain ⟨hi, hb⟩ := newResource_some hi
  refine (h.setNull hi hp hb).assign (setSlot_self _) fun e he => ?_
  refine DescState.Refers.setNull ?_ hb
  subst he
  unfold slotAt at hold
  split_ifs at hold with h0 h1
  · exact ⟨p, hp, _, (h.slot p _ _ hold).1, hold⟩
  · exact ((hok.resolve_left h1).resolve_left hfull) e (by simp [hold])

lemma dup2 (hp : s.live p = true) {a b : Int} (ha : 0 ≤ a ∧ a < maxCount)
    (hb : 0 ≤ b ∧ b < maxCount) (hab : a ≠ b) : DescInv (s.dup2 p a b).1 := by
  have hat : ∀ {x : Int}, 0 ≤ x ∧ x < maxCount → s.slotAt p x none = s.bindings p x.toNat :=
    fun hx => by rw [slotAt, if_neg (by omega), if_pos hx.2]
  unfold DescState.dup2
  split
  · exact h
  rename_i old hold
  rw [hat ha] at hold
  -- whether `b` was open or not, it is unused before it is made anew
  have hclosed : ∀ t, (if (s.slotAt p b none).isSome then (s.close p b none).1 else s) = t →
      DescInv t ∧ t.live = s.live ∧ t.bindings p b.toNat = none ∧ t.bindings p a.toNat = some old := by
    rintro t rfl
    rcases hv : s.slotAt p b none with _ | v
    · rw [hat hb] at hv
      exact ⟨h, rfl, hv, hold⟩
    · simp only [DescState.close, hv, isSome_some, if_true]
      refine ⟨h.freeResource p _, freeResource_live, ?_, ?_⟩
      · rw [freeResource_bindings (by omega), if_pos ⟨rfl, rfl⟩]
      · rw [freeResource_bindings (by omega), if_neg (by omega), hold]
  generalize ht : (if (s.slotAt p b none).isSome then (s.close p b none).1 else s) = t
  obtain ⟨hI, hlive, hnone, hold'⟩ := hclosed t ht
  have hp' : t.live p = true := by rw [hlive, hp]
  refine (hI.setNull (by omega) hp' hnone).assign (setSlot_self _) fun e he => ?_
  subst he
  exact DescState.Refers.setNull ⟨p, hp', _, (hI.slot p _ _ hold').1, hold'⟩ hnone

omit h in
lemma init : DescInv (DescState.init : DescState P) where
  heap := by constructor <;> simp [DescState.init]
  slot := by simp [DescState.init]
  made := by simp [DescState.init]

lemma step {a : DescAct P} {t : DescState P} (hok : s.Traced a) (hs : s.step a = some t) : DescInv t := by
  unfold DescState.step at hs
  split at hs <;> split_ifs at hs with hg <;> obtain rfl := some.inj hs
  · exact h.enliven _
  · exact h.pipe hg
  · exact h.dup hg.1 hok
  · obtain ⟨hp, ha, hb, hab⟩ := hg
    exact h.dup2 hp ha hb hab
  · exact h.close _ _ _
  · exact h.fork _ _
  · exact h.destroy _

end DescInv

namespace DescState

variable {P : Type*} [DecidableEq P] {s : DescState P} {p : P} {filedes : Int} {beyond : Option DescPtr}

lemma pipe_failed (h : (s.pipe p).2 = -1) : (s.pipe p).1.bindings = s.bindings := by
  unfold pipe at h ⊢
  rcases hrd : s.newResource p with _ | rd
  · rfl
  obtain ⟨hlt, hb⟩ := newResource_some hrd
  rcases hwr : (s.setSlot p rd (some none)).newResource p with _ | wr
  · simp only [hwr]
    funext q j
    rw [freeResource_bindings hlt, setSlot_bindings]
    split_ifs with hq
    · rw [hq.1, hq.2, hb]
    · rfl
  · simp [hrd, hwr] at h

lemma dup_failed (h : (s.dup p filedes beyond).2 = -1) : (s.dup p filedes beyond).1.bindings = s.bindings := by
  unfold dup at h ⊢
  rcases hold : s.slotAt p filedes beyond with _ | old
  · rfl
  rcases hi : s.newResource p with _ | i
  · rfl
  · simp only [hold, hi] at h
    omega

lemma dup_refers (hp : s.live p = true) (hno : ¬ s.Traced (.dup p filedes beyond)) :
    ∃ e, beyond = some (some e) ∧ ¬ s.Refers e ∧ (s.dup p filedes beyond).1.Refers e ∧
      (s.dup p filedes beyond).1.heap.closes = s.heap.closes ∧
      (s.dup p filedes beyond).1.heap.next = s.heap.next := by
  simp only [Traced, not_or, not_forall] at hno
  obtain ⟨hfd, hfull, e, he, hr⟩ := hno
  have hb : beyond = some (some e) := join_eq_some_iff.1 he
  obtain ⟨i, hi⟩ := ne_none_iff_exists'.1 hfull
  have hat : s.slotAt p filedes beyond = some (some e) := by rw [slotAt, if_neg (by omega), if_neg hfd, hb]
  refine ⟨e, hb, hr, ?_⟩
  simp only [dup, hat, hi]
  exact ⟨⟨p, hp, i, (newResource_some hi).1, setSlot_self _⟩, rfl, rfl⟩

end DescState

section Main

variable {P : Type*} [DecidableEq P] [Fintype P] {s : DescState P}

/-- The write end of a pipe is closed exactly while no slot of a live process refers to it, and every handle
is closed once, until a `dup` copies from past the table what no slot refers to. -/
theorem pipe_closed_with_last_slot (h : Reaches step DescState.Traced (init : DescState P) s) :
    (s.Exact ∧ (∀ p, (s.pipe p).2 = -1 → (s.pipe p).1.bindings = s.bindings) ∧
      ∀ p filedes beyond, (s.dup p filedes beyond).2 = -1 → (s.dup p filedes beyond).1.bindings = s.bindings) ∧
      ∀ a t, s.step a = some t → ¬ s.Traced a → ¬ t.Exact := by
  have hI : DescInv s := h.invariant DescInv.init fun _ _ _ hI hok hs => hI.step hok hs
  refine ⟨⟨hI.exact, fun p => pipe_failed, fun p _ _ => dup_failed⟩, ?_⟩
  intro a t hs hno hex
  cases a with
  | dup p filedes beyond =>
    simp only [step] at hs
    split_ifs at hs with hg
    cases hs
    obtain ⟨e, hb, hr, hr', hcl, hnext⟩ := dup_refers hg.1 hno
    have he : e.1 < s.heap.next := hg.2 e (by simp [hb])
    have hone := ((hI.exact e.1 he).2 e.2).2 hr
    have hzero := ((hex e.1 (hnext ▸ he)).2 e.2).1 hr'
    rw [hcl] at hzero
    omega
  | _ => exact hno trivial

end Main

instance {P : Type*} [DecidableEq P] [Fintype P] (s : DescState P) (a : DescAct P) : Decidable (s.Traced a) := by
  cases a <;> unfold DescState.Traced DescState.Refers <;> infer_instance

theorem pipe_closed_with_last_slot_shared : ∃ s : DescState (Fin 1), (s.heap.streams 0).closed = true ∧
      (∀ m, s.heap.closes (0, m) = 1) ∧ s.Exact := by
  obtain ⟨s, hs, hc, hr, hw⟩ : ∃ s : DescState (Fin 1), Reaches step DescState.Traced init s ∧
      (s.heap.streams 0).closed = true ∧ s.heap.closes (0, .read) = 1 ∧ s.heap.closes (0, .write) = 1 :=
    exists_of_run [.spawn 0, .pipe 0, .dup 0 1 none, .dup2 0 2 0, .close 0 1 none, .close 0 2 none,
      .close 0 0 none] (by decide +kernel)
  exact ⟨s, hc, fun m => by cases m <;> assumption, (pipe_closed_with_last_slot hs).1.1⟩

/-- The entry `dup(1100)` reads, 912 bytes behind the table, lies in the ring buffer of a second pipe, where
the process has written the address of the deleted descriptor. That is closed a second time. -/
theorem closed_end_duplicated : ∃ s : DescState (Fin 1), Reaches step Any init s ∧
      (s.heap.streams 0).closed = true ∧ s.Refers (0, .write) ∧
      (s.close 0 1 none).1.heap.closes (0, .write) = 2 := by
  obtain ⟨s, hs, hc, hp, hb, htwice⟩ : ∃ s : DescState (Fin 1), Reaches step Any init s ∧
      (s.heap.streams 0).closed = true ∧ s.live 0 = true ∧ s.bindings 0 1 = some (some (0, .write)) ∧
        (s.close 0 1 none).1.heap.closes (0, .write) = 2 :=
    exists_of_run [.spawn 0, .pipe 0, .pipe 0, .close 0 1 none, .dup 0 1100 (some (some (0, .write)))]
      (by decide +kernel)
  exact ⟨s, hs, hc, ⟨0, hp, 1, by decide, hb⟩, htwice⟩

end OlliOS
