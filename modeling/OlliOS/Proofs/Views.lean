import OlliOS.Views

/-!
# Views are confined unless a request wraps

If no sum wraps, the sum of the clips is the clip to all the windows.
-/

namespace OlliOS

open UInt32

namespace Window

variable {r : Request} {w : Window}

lemma toNat_pass_size (hpos : r.pos ≤ w.length) (hwrap : r.pos.toNat + r.size.toNat < 2 ^ 32) :
    (w.pass r).size.toNat = min r.size.toNat (w.length.toNat - r.pos.toNat) := by
  have hsum : (r.pos + r.size).toNat = r.pos.toNat + r.size.toNat := by
    rw [UInt32.toNat_add]
    omega
  have hdiff := UInt32.toNat_sub_of_le w.length r.pos (UInt32.le_iff_toNat_le.2 hpos)
  unfold pass FileHandle.viewSize
  simp only [UInt32.lt_iff_toNat_lt]
  split_ifs <;> omega

lemma pass_size_ne_zero (h : ¬ r.pos ≤ w.length) : (w.pass r).size ≠ 0 := by
  have hpos := r.pos.toNat_lt
  have hsum := UInt32.toNat_add r.pos r.size
  have hdiff := UInt32.toNat_sub w.length r.pos
  have hzero : (0 : UInt32).toNat = 0 := rfl
  rw [le_iff_toNat_le] at h
  simp only [pass, FileHandle.viewSize, UInt32.lt_iff_toNat_lt, ne_eq, ← UInt32.toNat_inj]
  split_ifs <;> omega

lemma pass_size_of_wraps (hpos : r.pos ≤ w.length)
    (hwrap : ¬ r.pos.toNat + r.size.toNat < 2 ^ 32) : (w.pass r).size = r.size := by
  have hs := r.size.toNat_lt
  have hsum := UInt32.toNat_add r.pos r.size
  rw [le_iff_toNat_le] at hpos
  refine if_neg ?_
  rw [lt_iff_toNat_lt, hsum]
  omega

lemma contains_iff (w : Window) (r : Request) :
    w.Contains r ↔ r.pos ≤ w.length ∧ r.pos.toNat + r.size.toNat < 2 ^ 32 := by
  constructor
  · intro h
    have hpos : r.pos ≤ w.length := by
      by_contra hpos
      refine pass_size_ne_zero hpos (h.behind ?_)
      rw [le_iff_toNat_le] at hpos ⊢
      omega
    refine ⟨hpos, ?_⟩
    by_contra hwrap
    -- the byte at the end of the window is passed on
    have hsize := congrArg toNat (pass_size_of_wraps hpos hwrap)
    have hlength := w.length.toNat_lt
    rw [le_iff_toNat_le] at hpos
    have hinside := h.inside (w.length.toNat - r.pos.toNat) (by omega)
    omega
  · rintro ⟨hpos, hwrap⟩
    have hsize := toNat_pass_size hpos hwrap
    have hfits := w.fits
    refine ⟨fun i hi => by omega, fun i hi => ?_, fun hbehind => ?_⟩
    · have hshift : (w.pass r).pos.toNat = r.pos.toNat + w.start.toNat := by
        change (r.pos + w.start).toNat = _
        rw [UInt32.toNat_add]
        omega
      omega
    · rw [le_iff_toNat_le] at hbehind
      refine UInt32.toNat_inj.1 ?_
      rw [hsize]
      change min _ _ = 0
      omega

lemma confines_iff : ∀ (ws : List Window) (r : Request), Confines ws r ↔ Unwrapped ws r
  | [], _ => Iff.rfl
  | w :: ws, r => by rw [Confines, Unwrapped, contains_iff, confines_iff ws]

def through (ws : List Window) (r : Request) : Request := ws.foldl (fun r w => w.pass r) r

lemma through_pos : ∀ (ws : List Window) (r : Request), (through ws r).pos = ofNat (r.pos.toNat + shift ws)
  | [], r => by simp [through, shift]
  | w :: ws, r => by
    have hrest := through_pos ws (w.pass r)
    have hpass : (w.pass r).pos = ofNat (r.pos.toNat + w.start.toNat) := by rfl
    refine hrest.trans ?_
    rw [hpass, shift, shift, List.map_cons, List.sum_cons]
    refine UInt32.toNat_inj.1 ?_
    simp only [UInt32.toNat_ofNat']
    omega

lemma clipped_zero : ∀ (ws : List Window) (pos : ℕ), clipped ws 0 pos = 0
  | [], _ => rfl
  | w :: ws, pos => by rw [clipped, Nat.zero_min, clipped_zero ws]

lemma through_size_zero : ∀ (ws : List Window) {r : Request}, Unwrapped ws r → r.size = 0 → (through ws r).size = 0
  | [], r, _, h => h
  | w :: ws, r, hu, h => by
    refine through_size_zero ws hu.2 (UInt32.toNat_inj.1 ?_)
    rw [toNat_pass_size hu.1.1 hu.1.2, h]
    exact Nat.zero_min _

lemma through_size : ∀ (ws : List Window) {r : Request}, Unwrapped ws r →
    (through ws r).size.toNat = clipped ws r.size.toNat r.pos.toNat
  | [], _, _ => rfl
  | w :: ws, r, hu => by
    have hpass := toNat_pass_size hu.1.1 hu.1.2
    rw [clipped, ← hpass]
    by_cases hempty : (w.pass r).size = 0
    · have hzero : (through (w :: ws) r).size = 0 := through_size_zero ws hu.2 hempty
      rw [hzero, hempty]
      exact (clipped_zero ws _).symm
    have hne : (w.pass r).size.toNat ≠ 0 := fun h => hempty (UInt32.toNat_inj.1 h)
    have hfits := w.fits
    have hshift : (w.pass r).pos.toNat = r.pos.toNat + w.start.toNat := by
      change (r.pos + w.start).toNat = _
      rw [UInt32.toNat_add]
      omega
    have hrest := through_size ws hu.2
    rwa [hshift] at hrest

end Window

open Window

variable {σ : Type}

lemma views_read (handle : FileHandle σ) : ∀ (ws : List Window) (r : Request),
    (handle.views ws).read r.size r.pos = handle.read (through ws r).size (through ws r).pos
  | [], _ => rfl
  | w :: ws, r => views_read handle ws (w.pass r)

lemma views_write (handle : FileHandle σ) (buffer : ℕ → UInt8) : ∀ (ws : List Window) (r : Request),
    (handle.views ws).write buffer r.size r.pos = handle.write buffer (through ws r).size (through ws r).pos
  | [], _ => rfl
  | w :: ws, r => views_write handle buffer ws (w.pass r)

/-- Views of views, to any depth, confine a request exactly if no view is asked for anything that starts
behind its window or that wraps. -/
theorem views_confined_iff (handle : FileHandle σ) (ws : List Window) (r : Request) :
    handle.Confined ws r ↔ Unwrapped ws r := by
  refine ⟨fun h => (confines_iff ws r).1 h.windows, fun hu => ?_⟩
  have hsize : (through ws r).size = ofNat (clipped ws r.size.toNat r.pos.toNat) := by
    rw [← through_size ws hu, UInt32.ofNat_toNat]
  have hpos := through_pos ws r
  refine ⟨(confines_iff ws r).2 hu, fun s => ?_, fun buffer s => ?_⟩
  · rw [views_read, hsize, hpos]
  · rw [views_write, hsize, hpos]

def tenBytes : Window := ⟨100, 10, by decide⟩

/-- One byte behind the window becomes almost the whole address space, and a size of `-1` is passed on as
it is. -/
theorem view_leaks : tenBytes.pass ⟨1, 20⟩ = ⟨0xFFFFFFF6, 120⟩ ∧ tenBytes.pass ⟨0xFFFFFFFF, 5⟩ = ⟨0xFFFFFFFF, 105⟩ ∧
    ∀ handle : FileHandle ℕ, ¬ handle.Confined [tenBytes] ⟨1, 20⟩ ∧ ¬ handle.Confined [tenBytes] ⟨0xFFFFFFFF, 5⟩ := by
  refine ⟨rfl, rfl, fun handle => ⟨fun h => ?_, fun h => ?_⟩⟩
  · exact absurd (h.windows.1.behind (by decide)) (by decide)
  · exact absurd (h.windows.1.inside 5 (by decide)) (by decide)

end OlliOS
