import OlliOS.Frames
import OlliOS.Proofs.Physical

/-!
# Frames are handed out once

A bit of the bitmap is clear exactly when its frame is available (`FrameInv.free_iff`), as long as no
allocation has come to the byte behind the bitmap.
-/

namespace OlliOS

open Stepping List FrameState Bitmap

namespace Bitmap

variable {bitmap : Bitmap} {start length : UInt32} {i f : ℕ}

/-- An allocation of frames that meet `P` marks the lowest free one. -/
inductive Lowest (bitmap : Bitmap) (P : ℕ → Prop) : Option (ℕ × Bitmap) → Prop
  | none (h : ∀ g < 0xFFFFF, P g → ¬ bitmap.Free g) : Lowest bitmap P none
  | some {f : ℕ} (hlt : f < 0xFFFFF) (hP : P f) (hfree : bitmap.Free f)
      (hlow : ∀ g < f, P g → ¬ bitmap.Free g) : Lowest bitmap P (some (f, bitmap.mark f))

lemma Lowest.eq_some {P : ℕ → Prop} {r : Option (ℕ × Bitmap)} (h : Lowest bitmap P r)
    (hlt : f < 0xFFFFF) (hP : P f) (hfree : bitmap.Free f) (hlow : ∀ g < f, ¬ bitmap.Free g) :
    r = Option.some (f, bitmap.mark f) := by
  cases h with
  | none hno => exact absurd hfree (hno f hlt hP)
  | @some g _ _ hg hlow' =>
    have hge : ¬ g < f := fun hlt => hlow g hlt hg
    have hle : ¬ f < g := fun hlt => hlow' f hlt hP hfree
    rw [show g = f by omega]

/-- The allocation `r` returns the null pointer or a frame that has a bit. -/
def InBitmap (r : Option (ℕ × Bitmap)) : Prop := ∀ f ∈ r.map Prod.fst, f < 8 * bitmapSize

instance (r : Option (ℕ × Bitmap)) : Decidable (InBitmap r) :=
  match r with
  | none => .isTrue fun _ hf => by simp at hf
  | some (f, _) => decidable_of_iff (f < 8 * bitmapSize) (by simp [InBitmap])

lemma Lowest.inBitmap_iff {P : ℕ → Prop} {r : Option (ℕ × Bitmap)} (h : Lowest bitmap P r) :
    InBitmap r ↔ bitmap.EndsInside P := by
  cases h with
  | none hno => exact iff_of_true (by simp [InBitmap]) (.inr fun f _ hlt => hno f hlt)
  | @some f hlt hP hfree hlow =>
    have hin : InBitmap (Option.some (f, bitmap.mark f)) ↔ f < 8 * bitmapSize := by simp [InBitmap]
    rw [hin]
    constructor
    · exact fun hf => .inl ⟨f, hf, hP, hfree⟩
    · rintro (⟨g, hg, hPg, hfreeg⟩ | hbehind)
      · by_contra hf
        exact hlow g (by omega) hPg hfreeg
      · by_contra hf
        exact hbehind f (by omega) hlt hP hfree

lemma endsInside_false : bitmap.EndsInside fun _ => False := .inr fun _ _ _ hP => hP.elim

lemma lowest_allocatePhysicalMemory :
    Lowest bitmap (fun f => 0x100000 ≤ f * 0x1000) bitmap.allocatePhysicalMemory := by
  unfold allocatePhysicalMemory
  cases hfind : (List.range' 0x100 (0xFFFFFFFF / 0x1000 - 0x100)).find? fun index =>
      decide (bitmap.Free index) with
  | none =>
    rw [find?_range'_eq_none] at hfind
    refine .none fun g hg hP => ?_
    simpa using hfind g (by omega) (by omega)
  | some f =>
    obtain ⟨hfree, hmem, hlow⟩ := find?_range'_eq_some.1 hfind
    rw [mem_range'_1] at hmem
    refine .some (by omega) (by omega) (by simpa using hfree) fun g hg hP => ?_
    simpa using hlow g (by omega) hg

lemma lowest_allocateMasked (reverseMask : UInt32) :
    Lowest bitmap (Fits reverseMask) (bitmap.allocateMasked reverseMask) := by
  unfold allocateMasked
  cases hfind : (List.range' 0 (0xFFFFFFFF / 0x1000)).find? fun index =>
      decide (Fits reverseMask index ∧ bitmap.Free index) with
  | none =>
    rw [find?_range'_eq_none] at hfind
    refine .none fun g hg hP hfree => ?_
    simpa [hP, hfree] using hfind g (by omega) (by omega)
  | some f =>
    obtain ⟨hfound, hmem, hlow⟩ := find?_range'_eq_some.1 hfind
    obtain ⟨hP, hfree⟩ : Fits reverseMask f ∧ bitmap.Free f := by simpa using hfound
    rw [mem_range'_1] at hmem
    refine .some (by omega) hP hfree fun g hg hP hfree => ?_
    simpa [hP, hfree] using hlow g (by omega) hg

lemma exists_walked (h : PageRange start length) :
    (∃ j < length.toNat / 0x1000, f = walked start j) ↔ InRange start length f := by
  obtain ⟨hstart, -, hend⟩ := h
  have hwalk : ∀ j < length.toNat / 0x1000, walked start j = start.toNat / 0x1000 + j := by
    unfold walked
    omega
  constructor
  · rintro ⟨j, hj, rfl⟩
    rw [hwalk j hj]
    exact ⟨by omega, by omega⟩
  · rintro ⟨hle, hlt⟩
    refine ⟨f - start.toNat / 0x1000, by omega, ?_⟩
    rw [hwalk _ (by omega)]
    omega

lemma registerAvailableMemory_range (bitmap : Bitmap) (h : PageRange start length) :
    ∃ b, bitmap.registerAvailableMemory passes start length = some b ∧
      ∀ f, b.Free f ↔ bitmap.Free f ∨ InRange start length f := by
  obtain ⟨hall, hex⟩ := registerAvailableMemory_spec passes bitmap start length
  have hend := h.2.2
  obtain ⟨b, hb⟩ := hex (by show _ < 0x100000; omega)
  refine ⟨b, hb, fun f => ?_⟩
  rw [hall b hb f, exists_walked h]

lemma reservePhysicalMemory_range (bitmap : Bitmap) (h : PageRange start length) :
    ∃ b, bitmap.reservePhysicalMemory passes start length = some b ∧
      ∀ f, b.Free f ↔ bitmap.Free f ∧ ¬ InRange start length f := by
  have hend := h.2.2
  have hlen : length.toNat % 0x1000 = 0 := by
    have := congrArg UInt32.toNat h.2.1
    simpa using this
  obtain ⟨hall, hex⟩ := reservePhysicalMemory_spec passes bitmap start length (by omega)
  obtain ⟨b, hb⟩ := hex (by show _ < 0x100000; omega)
  refine ⟨b, hb, fun f => ?_⟩
  rw [hall b hb f, ← exists_walked h]
  refine and_congr_right fun _ => ?_
  constructor
  · rintro hne ⟨j, hj, heq⟩
    exact hne j (by omega) heq
  · intro hno j hj heq
    exact hno ⟨j, by omega, heq⟩

end Bitmap

instance (s : FrameState) : (a : FrameCall) → Decidable (s.StaysInBitmap a)
  | .allocatePhysicalMemory =>
    decidable_of_iff (InBitmap s.bitmap.allocatePhysicalMemory) lowest_allocatePhysicalMemory.inBitmap_iff
  | .allocateMasked reverseMask =>
    decidable_of_iff (InBitmap (s.bitmap.allocateMasked reverseMask))
      (lowest_allocateMasked reverseMask).inBitmap_iff
  | .registerAvailableMemory _ _ | .reservePhysicalMemory _ _ | .freePhysicalMemory _ =>
    .isTrue endsInside_false

/-- What the bitmap and the history of the calls say about a frame is the same, and only frames with a bit
were ever registered. -/
structure FrameInv (s : FrameState) : Prop where
  free_iff : ∀ f < 8 * bitmapSize, s.bitmap.Free f ↔ s.Available f
  registered_lt : ∀ f, s.registered f = true → f < 8 * bitmapSize
  handed : ∀ f, s.handed f = true → s.registered f = true ∧ s.reserved f = false

namespace FrameInv

variable {s s' : FrameState} {start length : UInt32} {f : ℕ}

lemma init (memory : Bitmap) : FrameInv (FrameState.init memory) := by
  refine ⟨fun f hf => ?_, by simp [FrameState.init], by simp [FrameState.init]⟩
  refine iff_of_false (Bitmap.not_free_init hf) ?_
  simp [FrameState.Available, FrameState.init]

lemma inRange_lt (h : PageRange start length) (hf : InRange start length f) : f < 8 * bitmapSize := by
  have hend := h.2.2
  have hlt := hf.2
  show f < 8 * (0xFFFFFFFF / 0x8000)
  omega

lemma not_handed (hlegal : ∀ j < length.toNat / 0x1000, s.handed (start.toNat / 0x1000 + j) = false)
    (hf : InRange start length f) : s.handed f = false := by
  obtain ⟨hle, hlt⟩ := hf
  have := hlegal (f - start.toNat / 0x1000) (by omega)
  rwa [Nat.add_sub_cancel' hle] at this

/-- A call keeps the invariant if its scan stays in the bitmap, and just then it does what it is
for. -/
def Right (s : FrameState) (a : FrameCall) (s' : FrameState) : Prop :=
  (s.StaysInBitmap a → FrameInv s') ∧ (s.StaysInBitmap a ↔ FrameStep s a s')

variable (h : FrameInv s)

include h

lemma register (hlegal : s.Legal (.registerAvailableMemory start length)) :
    ∃ s', s.step (.registerAvailableMemory start length) = some s' ∧
      Right s (.registerAvailableMemory start length) s' := by
  obtain ⟨b, hb, hfree⟩ := registerAvailableMemory_range s.bitmap hlegal.1
  simp only [step, if_pos hlegal, hb]
  refine ⟨_, rfl, fun _ => ⟨fun f hf => ?_, fun f hf => ?_, fun f hf => ?_⟩,
    iff_of_true endsInside_false ⟨by simp, by simp [FrameCall.Wants], fun f hf => ?_⟩⟩
  · by_cases hr : InRange start length f
    · have hh := not_handed hlegal.2 hr
      simp [hfree, FrameState.Available, hr, hh]
    · simpa [hfree, FrameState.Available, hr] using h.free_iff f hf
  · by_cases hr : InRange start length f
    · exact inRange_lt hlegal.1 hr
    · exact h.registered_lt f (by simpa [hr] using hf)
  · obtain ⟨hreg, hres⟩ := h.handed f hf
    simp [hreg, hres]
  · have hr : ¬ InRange start length f := hf
    simp [hfree, hr]

lemma reserve (hlegal : s.Legal (.reservePhysicalMemory start length)) :
    ∃ s', s.step (.reservePhysicalMemory start length) = some s' ∧
      Right s (.reservePhysicalMemory start length) s' := by
  obtain ⟨b, hb, hfree⟩ := reservePhysicalMemory_range s.bitmap hlegal.1
  simp only [step, if_pos hlegal, hb]
  refine ⟨_, rfl, fun _ => ⟨fun f hf => ?_, h.registered_lt, fun f hf => ?_⟩,
    iff_of_true endsInside_false ⟨by simp, by simp [FrameCall.Wants], fun f hf => ?_⟩⟩
  · by_cases hr : InRange start length f
    · simp [hfree, FrameState.Available, hr]
    · simpa [hfree, FrameState.Available, hr] using h.free_iff f hf
  · have hr : ¬ InRange start length f := by
      intro hr
      simp [not_handed hlegal.2 hr] at hf
    simpa [hr] using h.handed f hf
  · have hr : ¬ InRange start length f := hf
    simp [hfree, hr]

lemma free (hlegal : s.Legal (.freePhysicalMemory f)) :
    ∃ s', s.step (.freePhysicalMemory f) = some s' ∧ Right s (.freePhysicalMemory f) s' := by
  obtain ⟨hreg, hres⟩ := h.handed f hlegal
  have hlt := h.registered_lt f hreg
  have hindex : (UInt32.ofNat f * 0x1000 / 0x1000).toNat = f := by
    have hlt : f < 8 * (0xFFFFFFFF / 0x8000) := hlt
    rw [UInt32.toNat_div, UInt32.toNat_mul, UInt32.toNat_ofNat']
    show f % 2 ^ 32 * 0x1000 % 2 ^ 32 / 0x1000 = f
    omega
  have hfree : ∀ g, (s.bitmap.freePhysicalMemory (UInt32.ofNat f * 0x1000)).Free g ↔ g = f ∨ s.bitmap.Free g := by
    intro g
    rw [freePhysicalMemory, hindex]
    exact free_clear
  simp only [step, if_pos hlegal]
  refine ⟨_, rfl, fun _ => ⟨fun g hg => ?_, h.registered_lt, fun g hg => ?_⟩,
    iff_of_true endsInside_false ⟨by simp, by simp [FrameCall.Wants], fun g hg => ?_⟩⟩
  · by_cases hgf : g = f
    · subst hgf
      simp [hfree, FrameState.Available, hreg, hres]
    · simpa [hfree, FrameState.Available, hgf] using h.free_iff g hg
  · have hgf : g ≠ f := by
      intro hgf
      simp [hgf] at hg
    exact h.handed g (by simpa [hgf] using hg)
  · have hgf : g ≠ f := hg
    simp [hfree, hgf]

lemma allocate {a : FrameCall} {r : Option (ℕ × Bitmap)}
    (hr : Bitmap.Lowest s.bitmap a.Wants r)
    (ht : ∀ returned f, a.Touches returned f ↔ returned = some f) : Right s a (s.allocated r) := by
  unfold Right
  rw [StaysInBitmap, ← hr.inBitmap_iff]
  cases hr with
  | none hno =>
    refine ⟨fun _ => ⟨h.free_iff, h.registered_lt, h.handed⟩, iff_of_true ?_ ⟨?_, ?_, ?_⟩⟩
    · simp [InBitmap]
    · simp [allocated]
    · intro f hw hav
      have hlt := h.registered_lt f hav.1
      have hfree := (h.free_iff f hlt).2 hav
      have hlt : f < 8 * (0xFFFFFFFF / 0x8000) := hlt
      exact absurd hfree (hno f (by omega) hw)
    · exact fun f _ => Iff.rfl
  | @some f hlt hw hfree hlow =>
    have hin : InBitmap (some (f, s.bitmap.mark f)) ↔ f < 8 * bitmapSize := by
      simp [InBitmap]
    have hothers : ∀ g, ¬ a.Touches (some f) g → ((s.bitmap.mark f).Free g ↔ s.bitmap.Free g) := by
      intro g hg
      have hgf : g ≠ f := fun hgf => hg ((ht _ _).2 (by rw [hgf]))
      simp [free_mark, hgf]
    rw [hin]
    refine ⟨fun hf => ⟨fun g hg => ?_, h.registered_lt, fun g hg => ?_⟩,
      fun hf => ⟨fun g hg => ?_, fun g hwg hav => ?_, hothers⟩, fun hstep => ?_⟩
    · by_cases hgf : g = f
      · subst hgf
        simp [allocated, free_mark, FrameState.Available]
      · simpa [allocated, free_mark, FrameState.Available, hgf] using h.free_iff g hg
    · by_cases hgf : g = f
      · subst hgf
        obtain ⟨hreg, hres, -⟩ := (h.free_iff g hf).1 hfree
        exact ⟨hreg, hres⟩
      · exact h.handed g (by simpa [allocated, hgf] using hg)
    · cases hg
      exact ⟨(h.free_iff f hf).1 hfree, hw⟩
    · refine ⟨f, ?_, rfl⟩
      by_contra hgf
      exact hlow g (by omega) hwg ((h.free_iff g (h.registered_lt g hav.1)).2 hav)
    · exact h.registered_lt f (hstep.returned f rfl).1.1

lemma call : ∀ {a : FrameCall}, s.Legal a → ∃ s', s.step a = some s' ∧ Right s a s'
  | .registerAvailableMemory _ _, hlegal => h.register hlegal
  | .reservePhysicalMemory _ _, hlegal => h.reserve hlegal
  | .allocatePhysicalMemory, _ =>
    ⟨_, rfl, h.allocate lowest_allocatePhysicalMemory fun _ _ => Iff.rfl⟩
  | .allocateMasked reverseMask, _ =>
    ⟨_, rfl, h.allocate (lowest_allocateMasked reverseMask) fun _ _ => Iff.rfl⟩
  | .freePhysicalMemory _, hlegal => h.free hlegal

lemma right {a : FrameCall} (hs : s.step a = some s') : Right s a s' := by
  have hlegal : s.Legal a := by
    by_contra hno
    simp [step, hno] at hs
  obtain ⟨s'', hs'', hright⟩ := h.call hlegal
  obtain rfl : s'' = s' := Option.some.inj (hs''.symm.trans hs)
  exact hright

end FrameInv

/-- The bitmap says which frames are available, every call returns, and it does what it is for if and
only if its scan stays in the bitmap. -/
structure FramesSafe (s : FrameState) : Prop where
  free_iff : ∀ f < 8 * bitmapSize, s.bitmap.Free f ↔ s.Available f
  total : ∀ a, s.Legal a → ∃ s', s.step a = some s'
  step : ∀ a s', s.step a = some s' → (s.StaysInBitmap a ↔ FrameStep s a s')

theorem frames_handed_once {memory : Bitmap} {s : FrameState}
    (hs : Reaches step FrameState.StaysInBitmap (init memory) s) :
    FramesSafe s := by
  have h : FrameInv s := hs.invariant (FrameInv.init memory) fun _ _ _ h hok hstep => (h.right hstep).1 hok
  refine ⟨h.free_iff, fun a hlegal => ?_, fun a s' hstep => (h.right hstep).2⟩
  obtain ⟨s', hs', -⟩ := h.call hlegal
  exact ⟨s', hs'⟩

/-- A frame is freed and handed out again, with one below 1 MiB handed out and one reserved. -/
theorem frames_handed_once_again : ∃ s : FrameState,
    (s.returned = some 0x100 ∧ s.handed 2 = true ∧ s.reserved 1 = true) ∧ FramesSafe s := by
  obtain ⟨s, hs, hstate⟩ : ∃ s : FrameState, Reaches step FrameState.StaysInBitmap (init fun _ => 0) s ∧
      s.returned = some 0x100 ∧ s.handed 2 = true ∧ s.reserved 1 = true :=
    exists_of_run [.registerAvailableMemory 0x1000 0x2000, .registerAvailableMemory 0x100000 0x1000,
      .allocateMasked 0x1000, .reservePhysicalMemory 0x1000 0x1000, .allocatePhysicalMemory,
      .freePhysicalMemory 0x100, .allocatePhysicalMemory] (by decide)
  exact ⟨s, hstate, frames_handed_once hs⟩

/-- No frame is registered, and the byte behind the bitmap is 0: the frame at 0xFFFF8000 is returned. -/
theorem frame_unregistered : ∃ s s' : FrameState, Reaches FrameState.step Any (FrameState.init fun _ => 0) s ∧
      s.step .allocatePhysicalMemory = some s' ∧ s'.returned = some 0xFFFF8 ∧
      s.registered 0xFFFF8 = false ∧ ¬ FrameStep s .allocatePhysicalMemory s' := by
  have halloc : (Bitmap.init fun _ => 0).allocatePhysicalMemory =
      some (0xFFFF8, (Bitmap.init fun _ => 0).mark 0xFFFF8) :=
    Bitmap.lowest_allocatePhysicalMemory.eq_some (by decide) (by decide) (by decide)
      fun g hg => Bitmap.not_free_init hg
  have hstep : (FrameState.init fun _ => 0).step .allocatePhysicalMemory =
      some ((FrameState.init fun _ => 0).allocated (some (0xFFFF8, (Bitmap.init fun _ => 0).mark 0xFFFF8))) := by
    rw [← halloc]
    rfl
  refine ⟨_, _, .refl _, hstep, rfl, rfl, fun hright => ?_⟩
  have := (hright.returned 0xFFFF8 rfl).1.1
  simp [FrameState.init] at this

end OlliOS
