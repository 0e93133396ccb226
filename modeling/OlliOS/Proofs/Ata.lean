import OlliOS.Modules.Ata

/-!
# What ATA transfers leave

The state after any number of bytes is given at once (`iterate_readByte`, `iterate_writeByte`).
-/

namespace OlliOS.Ata

open Function

variable {disk data : ℕ → UInt8} {amount offset : UInt32} {first stop next left : ℕ}

lemma iterate_readByte (m : ℕ) : (readByte first stop)^[m] { disk, next, left, data } =
    ⟨disk, next + m, left - m, fun p => if p < min m stop - first then disk (next + first + p) else data p, m,
      min m stop - first⟩ := by
  induction m with
  | zero => simp
  | succ m ih =>
    rw [iterate_succ_apply', ih, readByte]
    simp only [Transfer.mk.injEq, funext_iff, ite_apply]
    grind

lemma iterate_writeByte (m : ℕ) : (writeByte first stop)^[m] { disk, next, left, data } =
    ⟨fun p => if next ≤ p ∧ p < next + m then
        if next + first ≤ p ∧ p < next + stop then data (p - (next + first)) else 0
      else disk p, next + m, left - m, data, m, 0⟩ := by
  induction m with
  | zero =>
    simp only [iterate_zero, id, Transfer.mk.injEq]
    grind
  | succ m ih =>
    rw [iterate_succ_apply', ih, writeByte]
    simp only [Transfer.mk.injEq, funext_iff]
    grind

namespace Pio

lemma sectors_eq {byte : Transfer → Transfer} (hbyte : ∀ t, (byte t).left = t.left - 1) :
    ∀ (count : ℕ) (t : Transfer), 512 * count ≤ t.left → sectors byte count t = some (byte^[512 * count] t)
  | 0, _, _ => rfl
  | count + 1, t, h => by
    have hleft : ∀ n, (byte^[n] t).left = t.left - n := by
      intro n
      induction n with
      | zero => rfl
      | succ n ih => rw [iterate_succ_apply', hbyte, ih, Nat.sub_sub]
    rw [sectors, if_neg (by omega), ← iterate_mul, sectors_eq hbyte count _ (by rw [hleft]; omega), ← iterate_add_apply]
    rfl

lemma command_eq {byte : ℕ → ℕ → Transfer → Transfer} (hbyte : ∀ f s t, (byte f s t).left = t.left - 1) :
    ∃ left, (left ≤ 512 * sectorCount amount offset ↔ sectorCount amount offset ≠ 0) ∧
      command disk data amount offset byte =
        some ((byte (offset.toNat % 512) (offset.toNat % 512 + amount.toNat))^[512 * sectorCount amount offset]
          { disk, next := 512 * (offset.toNat / 512), left, data }) := by
  have hcount : sectorCount amount offset ≤ 256 := by grind [sectorCount]
  refine ⟨_, ?_, sectors_eq (hbyte _ _) _ _ ?_⟩ <;> grind

@[grind =] lemma toNat_add_511 : (amount + 511).toNat = (amount.toNat + 511) % 2 ^ 32 := UInt32.toNat_add _ _

lemma min_eq_served (h : amount.toNat ≤ 0xFFFFFE00) : min (512 * sectorCount amount offset)
    (offset.toNat % 512 + amount.toNat) - offset.toNat % 512 = served amount offset := by
  grind [sectorCount, served]

/-- `amount + 511` must not wrap, and there has to be a sector to read. -/
theorem pio_read_iff (disk data : ℕ → UInt8) (amount offset : UInt32) :
    (∃ t, read disk data amount offset = some t ∧ Reads disk data amount offset t) ↔
      (amount.toNat ≠ 0 ∨ offset.toNat % 512 ≠ 0) ∧ amount.toNat ≤ 0xFFFFFE00 := by
  obtain ⟨_, hleft, hcommand⟩ : ∃ left, _ ∧ command disk data amount offset readByte = _ := command_eq fun _ _ _ => rfl
  rw [read, hcommand, iterate_readByte, Nat.div_add_mod]
  have hlt := amount.toNat_lt
  constructor
  · rintro ⟨_, h, htaken, -, hreturned⟩
    cases h
    simp only [served] at htaken hreturned
    grind [sectorCount]
  · intro h
    refine ⟨_, rfl, ?_, by simp only [min_eq_served h.2], min_eq_served h.2⟩
    grind [sectorCount]

theorem pio_read_nothing : ¬ ∃ t, read (fun _ => 0) (fun _ => 0) 0 0 = some t ∧ Reads (fun _ => 0) (fun _ => 0) 0 0 t := by
  rintro ⟨_, h, htaken, -⟩
  cases h
  cases htaken

/-- What else is in the sectors is overwritten with zeros, and 0 is returned. -/
theorem write_eq (heven : amount % 2 = 0) : ∃ next left i, write disk data amount offset = some ⟨fun p =>
      if 512 * (offset.toNat / 512) ≤ p ∧ p < 512 * (offset.toNat / 512) + 512 * sectorCount amount offset then
        if offset.toNat ≤ p ∧ p < offset.toNat + amount.toNat then data (p - offset.toNat) else 0
      else disk p, next, left, data, i, 0⟩ := by
  obtain ⟨_, -, hcommand⟩ : ∃ left, _ ∧ command disk data amount offset writeByte = _ := command_eq fun _ _ _ => rfl
  rw [write, heven, if_neg (by decide), hcommand, iterate_writeByte, ← Nat.add_assoc, Nat.div_add_mod]
  exact ⟨_, _, _, rfl⟩

theorem pio_write_never (disk data : ℕ → UInt8) (offset : UInt32) (heven : amount % 2 = 0) (hamount : 2 ≤ amount) :
    ∃ t, write disk data amount offset = some t ∧ ¬ Writes disk data amount offset t := by
  obtain ⟨_, _, _, h⟩ := write_eq heven
  refine ⟨_, h, fun hw => ?_⟩
  have hreturned : 0 = served amount offset := hw.returned
  have hle : 2 ≤ amount.toNat := hamount
  rw [served] at hreturned
  omega

theorem pio_write_two : ∃ t, write (fun _ => 1) (fun _ => 2) 2 0 = some t ∧ ¬ Writes (fun _ => 1) (fun _ => 2) 2 0 t :=
  pio_write_never _ _ _ rfl (by decide)

theorem pio_write_zeroed : ∃ t, write (fun _ => 1) (fun _ => 2) 2 0 = some t ∧ t.readBytes = 0 ∧ t.disk 2 = 0 := by
  obtain ⟨_, _, _, h⟩ := write_eq (show (2 : UInt32) % 2 = 0 from rfl)
  exact ⟨_, h, rfl, rfl⟩

/-- Any part of what was written is read back. -/
theorem write_read_part (disk data memory : ℕ → UInt8) {part pos : UInt32} (heven : amount % 2 = 0)
    (hfits : offset.toNat % 512 + amount.toNat ≤ 131072) (hpos : offset.toNat ≤ pos.toNat)
    (hpart : pos.toNat + part.toNat ≤ offset.toNat + amount.toNat) :
    ∃ t u, write disk data amount offset = some t ∧ read t.disk memory part pos = some u ∧
      u.readBytes = part.toNat ∧ ∀ p < part.toNat, u.data p = data (pos.toNat - offset.toNat + p) := by
  obtain ⟨_, _, _, hwrite⟩ := write_eq heven
  obtain ⟨_, -, hread⟩ : ∃ left, _ ∧ command _ memory part pos readByte = _ := command_eq fun _ _ _ => rfl
  have hw : _ = served amount offset := min_eq_served (by omega)
  rw [served] at hw
  have hserved : served part pos = part.toNat := by rw [served]; omega
  rw [iterate_readByte, min_eq_served (by omega), hserved] at hread
  refine ⟨_, _, hwrite, hread, rfl, fun p hp => ?_⟩
  dsimp only
  rw [if_pos hp, if_pos (by omega), if_pos (by omega)]
  congr 1
  omega

theorem write_read_part_byte : ∃ t u, write (fun _ => 1) Nat.toUInt8 4 0 = some t ∧
    read t.disk (fun _ => 1) 1 2 = some u ∧ u.readBytes = 1 ∧ ∀ p < 1, u.data p = (2 + p).toUInt8 :=
  write_read_part _ _ _ rfl (by decide) (by decide) (by decide)

end Pio

namespace Packet

/-- The result does not leave out what was skipped. -/
theorem packet_read_iff (disk data : ℕ → UInt8) (amount offset : UInt32) {wordcount : ℕ} (heven : wordcount % 2 = 0)
    (hlimit : wordcount ≤ limit amount offset) : Delivers disk data amount offset wordcount ↔
      wordcount = 0 ∨ offset.toNat % 2048 = 0 ∨ amount.toNat ≤ wordcount - offset.toNat % 2048 := by
  have hlt := amount.toNat_lt
  have hskip : (offset % 2048).toNat = offset.toNat % 2048 := UInt32.toNat_mod _ _
  have hstop : (offset % 2048 + amount).toNat = (offset.toNat % 2048 + amount.toNat) % 2 ^ 32 := by
    rw [UInt32.toNat_add, hskip]
  rw [limit] at hlimit
  constructor
  · rintro ⟨-, hreturned, -⟩
    grind [read, delivered]
  intro h
  refine ⟨?_, by grind [read, delivered], by grind [limit]⟩
  have hdelivered : min wordcount (offset % 2048 + amount).toNat - offset.toNat % 2048 =
      delivered amount offset wordcount := by
    grind [delivered]
  rw [read, ← iterate_mul, show 2 * ((wordcount + 1) / 2) = wordcount by omega, iterate_readByte, hskip,
    hdelivered, Nat.div_add_mod]

theorem packet_read_block : Delivers (fun _ => 0) (fun _ => 1) 2048 0 2048 :=
  (packet_read_iff _ _ _ _ rfl (by decide)).2 (.inr (.inl rfl))

theorem packet_read_skipped : 2048 ≤ limit 2048 1 ∧ ¬ Delivers (fun _ => 0) (fun _ => 1) 2048 1 2048 :=
  ⟨by decide, fun h => absurd h.returned (by decide)⟩

end Packet

end OlliOS.Ata
