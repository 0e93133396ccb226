import OlliOS.Boot
import OlliOS.Proofs.Physical

/-!
# What is free after the memory map is read

The loops of `initMemory` leave exactly the frames free that some entry registers and no module reserves.
-/

namespace OlliOS

open Bitmap List UInt32 MmapEntry BootModule
open Option hiding or_assoc

section Loops

variable {fuel : ℕ} {kernelEnd : UInt32}

lemma MmapEntry.register_spec (fuel : ℕ) (kernelEnd : UInt32) (bitmap : Bitmap) (e : MmapEntry) :
    (∀ b, e.register fuel kernelEnd bitmap = some b → ∀ f, b.Free f ↔ bitmap.Free f ∨ e.Registers kernelEnd f) ∧
    (2 ^ 20 < fuel → ∃ b, e.register fuel kernelEnd bitmap = some b) := by
  unfold register MmapEntry.Registers
  rcases hp : e.pages kernelEnd with _ | ⟨start, length⟩
  · simp
  obtain ⟨hall, hex⟩ := registerAvailableMemory_spec fuel bitmap start length
  refine ⟨fun b hb f => ?_, fun hfuel => hex ?_⟩
  · rw [hall b hb f]
    simp
  · have := length.toNat_lt
    omega

lemma registerAll_spec (fuel : ℕ) (kernelEnd : UInt32) : ∀ (entries : List MmapEntry) (bitmap : Bitmap),
    (∀ b, entries.foldlM (register fuel kernelEnd) bitmap = some b →
      ∀ f, b.Free f ↔ bitmap.Free f ∨ ∃ e ∈ entries, e.Registers kernelEnd f) ∧
    (2 ^ 20 < fuel → ∃ b, entries.foldlM (register fuel kernelEnd) bitmap = some b)
  | [], bitmap => by
    simp only [foldlM_nil]
    exact ⟨by simp, fun _ => ⟨bitmap, rfl⟩⟩
  | e :: es, bitmap => by
    obtain ⟨hall, hex⟩ := e.register_spec fuel kernelEnd bitmap
    simp only [foldlM_cons, bind_eq_bind, bind_eq_some_iff]
    constructor
    · rintro b ⟨b', hb', hb⟩ f
      rw [(registerAll_spec fuel kernelEnd es b').1 b hb f, hall b' hb' f]
      simp [or_assoc]
    · intro hfuel
      obtain ⟨b', hb'⟩ := hex hfuel
      obtain ⟨b, hb⟩ := (registerAll_spec fuel kernelEnd es b').2 hfuel
      exact ⟨b, b', hb', hb⟩

lemma BootModule.reserve_spec {m : BootModule} (h : m.reserve fuel bitmap = some b) :
    (m.modEnd - m.modStart).toNat ≤ 0xFFFFF000 ∧ ∀ f, b.Free f ↔ bitmap.Free f ∧ ¬ m.Reserves f := by
  unfold reserve at h
  have hlen : (m.modEnd - m.modStart).toNat ≤ 0xFFFFF000 := by
    by_contra hlong
    rw [reservePhysicalMemory_eq_none fuel bitmap (by omega)] at h
    cases h
  refine ⟨hlen, fun f => ?_⟩
  rw [(reservePhysicalMemory_spec fuel bitmap _ _ hlen).1 b h f]
  simp [BootModule.Reserves]

lemma reserveAll_spec : ∀ {mods : List BootModule} {bitmap b : Bitmap}, mods.foldlM (reserve fuel) bitmap = some b →
    (∀ m ∈ mods, (m.modEnd - m.modStart).toNat ≤ 0xFFFFF000) ∧
      ∀ f, b.Free f ↔ bitmap.Free f ∧ ∀ m ∈ mods, ¬ m.Reserves f
  | [], bitmap, b, h => by
    obtain rfl : bitmap = b := by simpa using h
    simp
  | m :: ms, bitmap, b, h => by
    simp only [foldlM_cons, bind_eq_bind, bind_eq_some_iff] at h
    obtain ⟨b', hb', hb⟩ := h
    obtain ⟨hlen, hfree⟩ := reserve_spec hb'
    obtain ⟨hlens, hfrees⟩ := reserveAll_spec hb
    refine ⟨by simpa using ⟨hlen, hlens⟩, fun f => ?_⟩
    rw [hfrees, hfree]
    simp [and_assoc]

lemma reserveAll_returns (hfuel : 2 ^ 20 < fuel) : ∀ (mods : List BootModule) (bitmap : Bitmap),
    (∀ m ∈ mods, (m.modEnd - m.modStart).toNat ≤ 0xFFFFF000) →
    ∃ b, mods.foldlM (reserve fuel) bitmap = some b
  | [], bitmap, _ => ⟨bitmap, rfl⟩
  | m :: ms, bitmap, h => by
    have hm := h m (by simp)
    obtain ⟨b', hb'⟩ := (reservePhysicalMemory_spec fuel bitmap m.modStart _ hm).2 (by omega)
    obtain ⟨b, hb⟩ := reserveAll_returns hfuel ms b' fun m' hm' => h m' (by simp [hm'])
    refine ⟨b, ?_⟩
    simp only [foldlM_cons, bind_eq_bind, bind_eq_some_iff]
    exact ⟨b', hb', hb⟩

variable {entries : List MmapEntry} {mods : List BootModule} {bitmap b : Bitmap}

lemma initMemory_free (h : initMemory fuel kernelEnd (some entries) mods bitmap = some b) :
    (∀ m ∈ mods, (m.modEnd - m.modStart).toNat ≤ 0xFFFFF000) ∧ ∀ f < 8 * bitmapSize,
        b.Free f ↔ (∃ e ∈ entries, e.Registers kernelEnd f) ∧ ∀ m ∈ mods, ¬ m.Reserves f := by
  simp only [initMemory, bind_eq_bind, bind_eq_some_iff] at h
  obtain ⟨b', hb', hb⟩ := h
  obtain ⟨hlens, hfrees⟩ := reserveAll_spec hb
  refine ⟨hlens, fun f hf => ?_⟩
  rw [hfrees, (registerAll_spec fuel kernelEnd entries _).1 b' hb' f]
  simp [not_free_init hf]

lemma initMemory_returns (hfuel : 2 ^ 20 < fuel) (hlens : ∀ m ∈ mods, (m.modEnd - m.modStart).toNat ≤ 0xFFFFF000) :
    ∃ b, initMemory fuel kernelEnd (some entries) mods bitmap = some b := by
  obtain ⟨b', hb'⟩ := (registerAll_spec fuel kernelEnd entries bitmap.init).2 hfuel
  obtain ⟨b, hb⟩ := reserveAll_returns hfuel mods b' hlens
  refine ⟨b, ?_⟩
  simp only [initMemory, bind_eq_bind, bind_eq_some_iff]
  exact ⟨b', hb', hb⟩

end Loops

section Ranges

variable {kernelEnd : UInt32} {e : MmapEntry} {m : BootModule} {f : ℕ}

lemma MmapEntry.aboveKernel_spec {addr length : UInt32} (h : e.aboveKernel kernelEnd = some (addr, length)) :
    e.type = 1 ∧ kernelEnd.toNat ≤ addr.toNat ∧ e.addr.toNat % 2 ^ 32 ≤ addr.toNat ∧
      addr.toNat + length.toNat = e.addr.toNat % 2 ^ 32 + e.len.toNat % 2 ^ 32 := by
  have ha := UInt64.toNat_toUInt32 e.addr
  have hl := UInt64.toNat_toUInt32 e.len
  have hk := kernelEnd.toNat_lt
  unfold aboveKernel at h
  simp only at h
  split_ifs at h with htype hlow hshort
  · rw [lt_iff_toNat_lt] at hlow
    have hdiff : (kernelEnd - e.addr.toUInt32).toNat = kernelEnd.toNat - e.addr.toNat % 2 ^ 32 := by
      rw [UInt32.toNat_sub_of_le _ _ (by rw [UInt32.le_iff_toNat_le]; omega), ha]
    rw [lt_iff_toNat_lt, hdiff, hl] at hshort
    cases h
    rw [UInt32.toNat_add, hdiff, UInt32.toNat_sub_of_le _ _ (by rw [le_iff_toNat_le, hdiff, hl]; omega), hdiff, hl, ha]
    exact ⟨not_not.1 htype, by omega, by omega, by omega⟩
  · rw [lt_iff_toNat_lt] at hlow
    cases h
    exact ⟨not_not.1 htype, by omega, by omega, by omega⟩

lemma MmapEntry.toNat_pageOffset (addr : UInt32) : (pageOffset addr).toNat = 0x1000 - addr.toNat % 0x1000 := by
  have hmod : (addr % 0x1000).toNat = addr.toNat % 0x1000 := UInt32.toNat_mod ..
  unfold pageOffset
  rw [UInt32.toNat_sub_of_le, hmod]
  · rfl
  · show addr.toNat % 0x1000 ≤ 0x1000
    omega

lemma MmapEntry.Plain.registers (h : e.Plain kernelEnd) (hf : e.Registers kernelEnd f) :
    kernelEnd.toNat ≤ 0x1000 * f ∧ e.type = 1 ∧ e.addr.toNat ≤ 0x1000 * f ∧
      0x1000 * (f + 1) ≤ e.addr.toNat + e.len.toNat := by
  obtain ⟨start, length, hp, j, hj, rfl⟩ := hf
  simp only [pages, map_eq_some_iff, Prod.exists] at hp
  obtain ⟨addr, left, habove, heq⟩ := hp
  obtain ⟨rfl, rfl⟩ := Prod.mk.inj heq
  obtain ⟨hlow, hoff, hhigh⟩ := h addr left habove
  obtain ⟨htype, hk, ha, hend⟩ := MmapEntry.aboveKernel_spec habove
  have hpage := toNat_pageOffset addr
  rw [UInt32.toNat_sub_of_le _ _ (by exact hoff), hpage] at hj
  have hwalk : 0x1000 * walked (addr + pageOffset addr) j =
      addr.toNat + (0x1000 - addr.toNat % 0x1000) + 0x1000 * j := by
    unfold walked
    rw [UInt32.toNat_add, hpage]
    omega
  exact ⟨by omega, htype, by omega, by omega⟩

lemma BootModule.reserves_iff (hm : m.modStart ≤ m.modEnd) : m.Reserves f ↔
    m.modStart.toNat / 0x1000 ≤ f ∧ f < m.modStart.toNat / 0x1000 +
      (m.modEnd.toNat - m.modStart.toNat + 0xFFF) / 0x1000 := by
  have hend := m.modEnd.toNat_lt
  have hlen : (m.modEnd - m.modStart).toNat = m.modEnd.toNat - m.modStart.toNat :=
    UInt32.toNat_sub_of_le _ _ hm
  unfold BootModule.Reserves walked
  constructor
  · omega
  · rintro ⟨hlo, hhi⟩
    exact ⟨f - m.modStart.toNat / 0x1000, by omega, by omega⟩

lemma BootModule.Overlaps.reserves (hm : m.modStart ≤ m.modEnd) (h : m.Overlaps f) :
    m.Reserves f ∨ m.StopsShort ∧ f = m.lastFrame := by
  obtain ⟨b, hb1, hb2, hb3, hb4⟩ := h
  rw [reserves_iff hm]
  unfold StopsShort lastFrame
  rw [lt_iff_toNat_lt]
  omega

lemma BootModule.StopsShort.overlaps (h : m.StopsShort) : m.Overlaps m.lastFrame := by
  obtain ⟨hlt, hshort⟩ := h
  rw [lt_iff_toNat_lt] at hlt
  exact ⟨m.modEnd.toNat - 1, by unfold lastFrame; omega, by omega, by omega, by omega⟩

end Ranges

/-- The loops of `initMemory` end exactly when no module is longer than 4 GiB less a page, and then
every frame marked free is usable, above the kernel and outside every module exactly when the map
fits. -/
theorem boot_map_sound (kernelEnd : UInt32) (entries : List MmapEntry) (mods : List BootModule)
    (bitmap : Bitmap) (hmods : ∀ m ∈ mods, m.modStart ≤ m.modEnd) :
    ((∃ fuel b, initMemory fuel kernelEnd (some entries) mods bitmap = some b) ↔
      ∀ m ∈ mods, m.modEnd.toNat - m.modStart.toNat ≤ 0xFFFFF000) ∧
    ∀ fuel b, initMemory fuel kernelEnd (some entries) mods bitmap = some b →
      (BootSound kernelEnd entries mods b ↔ MapFits kernelEnd entries mods) := by
  have hlen : ∀ m ∈ mods, (m.modEnd - m.modStart).toNat = m.modEnd.toNat - m.modStart.toNat :=
    fun m hm => UInt32.toNat_sub_of_le _ _ (hmods m hm)
  refine ⟨⟨?_, fun h => ?_⟩, fun fuel b hb => ?_⟩
  · rintro ⟨fuel, b, hb⟩ m hm
    rw [← hlen m hm]
    exact (initMemory_free hb).1 m hm
  · exact ⟨2 ^ 20 + 1, initMemory_returns (by omega) fun m hm => hlen m hm ▸ h m hm⟩
  obtain ⟨-, hfree⟩ := initMemory_free hb
  constructor
  · intro hsound
    constructor
    · intro e he _ f hf hreg hres
      obtain ⟨huse, hk, -⟩ := hsound f hf ((hfree f hf).2 ⟨⟨e, he, hreg⟩, hres⟩)
      exact ⟨huse, hk⟩
    · intro m hm hshort hf e he hreg
      by_contra hno
      simp only [not_exists, not_and] at hno
      obtain ⟨-, -, hmod⟩ := hsound _ hf ((hfree _ hf).2 ⟨⟨e, he, hreg⟩, hno⟩)
      exact hmod m hm hshort.overlaps
  · rintro ⟨hstray, htail⟩ f hf hfr
    obtain ⟨⟨e, he, hreg⟩, hres⟩ := (hfree f hf).1 hfr
    have hrange : InUsable entries f ∧ kernelEnd.toNat ≤ 0x1000 * f := by
      by_cases hplain : e.Plain kernelEnd
      · obtain ⟨hk, htype, hlo, hhi⟩ := hplain.registers hreg
        exact ⟨⟨e, he, htype, hlo, hhi⟩, hk⟩
      · exact hstray e he hplain f hf hreg hres
    refine ⟨hrange.1, hrange.2, fun m hm hover => ?_⟩
    rcases hover.reserves (hmods m hm) with hr | ⟨hshort, rfl⟩
    · exact hres m hm hr
    · obtain ⟨m', hm', hr⟩ := htail m hm hshort hf e he hreg
      exact hres m' hm' hr

theorem boot_map_sound_plain :
    ∃ fuel b, initMemory fuel 0x1FD123 (some [⟨0x100000, 0x400000, 1⟩]) [⟨0x200000, 0x201800⟩] (fun _ => 0) = some b ∧
      BootSound 0x1FD123 [⟨0x100000, 0x400000, 1⟩] [⟨0x200000, 0x201800⟩] b := by
  obtain ⟨hends, hsound⟩ := boot_map_sound 0x1FD123 [⟨0x100000, 0x400000, 1⟩]
    [⟨0x200000, 0x201800⟩] (fun _ => 0) (by simp)
  obtain ⟨fuel, b, hb⟩ := hends.2 (by simp)
  refine ⟨fuel, b, hb, (hsound fuel b hb).2 ⟨?_, ?_⟩⟩
  · intro e he hplain
    obtain rfl := mem_singleton.1 he
    refine absurd ?_ hplain
    rintro addr length habove
    cases habove
    decide
  · intro m hm hshort
    obtain rfl := mem_singleton.1 hm
    exact absurd hshort (by unfold BootModule.StopsShort; decide)

/-- A usable entry at 4 GiB is taken for one at address 0: the two frames before 2 MiB are marked
free. -/
theorem high_entry_truncated :
    ∃ fuel b, initMemory fuel 0x1FD000 (some [⟨0x100000000, 0x200000, 1⟩]) [] (fun _ => 0) =
      some b ∧ ¬ BootSound 0x1FD000 [⟨0x100000000, 0x200000, 1⟩] [] b := by
  have hrun : (initMemory 3 0x1FD000 (some [⟨0x100000000, 0x200000, 1⟩]) [] (fun _ => 0)).any
      (fun b => decide (b.Free 0x1FE)) = true := by decide
  obtain ⟨b, hb, hfree⟩ := (Option.any_eq_true ..).1 hrun
  refine ⟨3, b, hb, fun hsound => ?_⟩
  obtain ⟨⟨e, he, -, hlo, -⟩, -⟩ := hsound 0x1FE (by decide) (of_decide_eq_true hfree)
  obtain rfl := mem_singleton.1 he
  exact absurd hlo (by decide)

end OlliOS
