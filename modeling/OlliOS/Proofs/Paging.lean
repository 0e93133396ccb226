import OlliOS.Paging
import OlliOS.Proofs.Physical

/-!
# Directories and tables through the self-map

An access through the last 4 MiB of a directory that leads back to itself is an access to the directory or
to one of its tables.
-/

namespace OlliOS

open Function Option PageTableItem Machine BitVec Finset

namespace PageTableItem

variable {v a : PageTableItem} {f : ℕ}

lemma getFlag_present : v.getFlag present = v.getLsbD 0 := by
  have h : present = twoPow 32 0 := by decide
  unfold getFlag
  rw [h, and_twoPow]
  cases hb : v.getLsbD 0
  · decide
  · simp

lemma and_ushiftRight {m : PageTableItem} (hm : ∀ i < 32, 12 ≤ i → m.getLsbD i = true) :
    (v &&& m) >>> 12 = v >>> 12 := by
  ext i hi
  simp only [getElem_ushiftRight, getLsbD_and]
  by_cases hi20 : 12 + i < 32
  · rw [hm (12 + i) hi20 (by omega), Bool.and_true]
  · rw [getLsbD_of_ge v (12 + i) (by omega)]
    rfl

lemma frame_eq : v.frame = (v >>> 12).toNat := by
  unfold frame getAddress
  rw [and_ushiftRight (by decide)]

lemma frame_lt : v.frame < 2 ^ 20 := by
  rw [frame_eq, toNat_ushiftRight, Nat.shiftRight_eq_div_pow]
  omega

lemma present_enableFlag (ha : a.getLsbD 0 = true) : (v.enableFlag a).getFlag present = true := by
  rw [getFlag_present, enableFlag, getLsbD_or, ha, Bool.or_true]

lemma frame_enableFlag (ha : a >>> 12 = 0#32) : (v.enableFlag a).frame = v.frame := by
  rw [frame_eq, frame_eq, enableFlag, ushiftRight_or_distrib, ha, or_zero]

lemma present_disableFlag_owned : (v.disableFlag owned).getFlag present = v.getFlag present := by
  have h : (0xFFFFFFFF#32 - owned).getLsbD 0 = true := by decide
  rw [getFlag_present, getFlag_present, disableFlag, getLsbD_and, h, Bool.and_true]

lemma frame_disableFlag_owned : (v.disableFlag owned).frame = v.frame := by
  rw [frame_eq, frame_eq, disableFlag, and_ushiftRight (by decide)]

lemma frame_setAddress (hf : f < 2 ^ 20) : (v.setAddress (ofFrame f)).frame = f := by
  have hmask : (~~~ 0xFFFFF000#32) >>> 12 = 0#32 := by decide
  rw [frame_eq, setAddress, ushiftRight_or_distrib, ushiftRight_and_distrib, hmask,
    and_zero, zero_or, toNat_ushiftRight, ofFrame, toNat_ofNat,
    Nat.shiftRight_eq_div_pow]
  omega

end PageTableItem

section Frames

variable {mem mem' : ℕ → Page} {d i k f : ℕ}

lemma tableFrame_eq_some : tableFrame mem d i = some f ↔ (mem d i).getFlag present = true ∧ (mem d i).frame = f := by
  unfold tableFrame
  simp only
  split_ifs with h
  · simp [h]
  · simp [h]

lemma tableFrame_congr {d' i' : ℕ} (h : mem' d' i' = mem d i) : tableFrame mem' d' i' = tableFrame mem d i := by
  unfold tableFrame
  rw [h]

lemma tableFrame_lt (h : tableFrame mem d i = some f) : f < 2 ^ 20 := by
  rw [← (tableFrame_eq_some.1 h).2]
  exact frame_lt

lemma pageFrame_eq_some : pageFrame mem d i k = some f ↔
    ∃ t, tableFrame mem d i = some t ∧ tableFrame mem t k = some f := by
  unfold pageFrame
  rw [bind_eq_some_iff]

lemma tableFrame_of_set {v flags : PageTableItem} (hf : f < 2 ^ 20)
    (h : mem d i = (v.setAddress (ofFrame f)).enableFlag flags)
    (hp : flags.getLsbD 0 = true) (hz : flags >>> 12 = 0#32) : tableFrame mem d i = some f := by
  rw [tableFrame_eq_some, h]
  exact ⟨present_enableFlag hp, (frame_enableFlag hz).trans (frame_setAddress hf)⟩

end Frames

namespace Bitmap

variable {bitmap bitmap' : Bitmap} {f : ℕ}

lemma allocatePhysicalMemory_eq_some (h : bitmap.allocatePhysicalMemory = some (f, bitmap')) :
    bitmap.Free f ∧ f < 2 ^ 20 ∧ bitmap' = bitmap.mark f ∧ bitmap.freeCount = bitmap'.freeCount + 1 := by
  simp only [allocatePhysicalMemory, map_eq_some_iff, Prod.mk.injEq] at h
  obtain ⟨g, hfind, hg, rfl⟩ := h
  subst hg
  have hfree : bitmap.Free g := by simpa using List.find?_some hfind
  have hmem := List.mem_of_find?_eq_some hfind
  rw [List.mem_range'_1] at hmem
  refine ⟨hfree, by omega, rfl, ?_⟩
  have herase : ((Finset.Ico 0x100 0xFFFFF).filter fun x => (bitmap.mark g).Free x) =
      ((Finset.Ico 0x100 0xFFFFF).filter fun x => bitmap.Free x).erase g := by
    ext x
    simp only [mem_filter, mem_erase, free_mark]
    exact ⟨fun ⟨h1, h2, h3⟩ => ⟨h2, h1, h3⟩, fun ⟨h1, h2, h3⟩ => ⟨h2, h1, h3⟩⟩
  unfold freeCount
  rw [herase, card_erase_add_one]
  rw [mem_filter, mem_Ico]
  exact ⟨⟨hmem.1, by omega⟩, hfree⟩

lemma exists_allocatePhysicalMemory (h : 0 < bitmap.freeCount) :
    ∃ f bitmap', bitmap.allocatePhysicalMemory = some (f, bitmap') := by
  obtain ⟨f, hf⟩ := card_pos.1 h
  rw [mem_filter, mem_Ico] at hf
  rcases hfind : (List.range' 0x100 (0xFFFFFFFF / 0x1000 - 0x100)).find? fun index =>
      decide (bitmap.Free index) with _ | g
  · rw [List.find?_eq_none] at hfind
    have hno := hfind f (by rw [List.mem_range'_1]; omega)
    exact absurd hf.2 (by simpa using hno)
  · exact ⟨g, bitmap.mark g, by rw [allocatePhysicalMemory, hfind]; rfl⟩

lemma le_freeCount {a n : ℕ} (ha : 0x100 ≤ a) (hn : a + n ≤ 0xFFFFF)
    (h : ∀ f, a ≤ f → f < a + n → bitmap.Free f) : n ≤ bitmap.freeCount := by
  have hsub : Finset.Ico a (a + n) ⊆ (Finset.Ico 0x100 0xFFFFF).filter fun f => bitmap.Free f := by
    intro f hf
    rw [mem_Ico] at hf
    rw [mem_filter, mem_Ico]
    exact ⟨⟨by omega, by omega⟩, h f hf.1 hf.2⟩
  have hcard := card_le_card hsub
  rwa [Nat.card_Ico, Nat.add_sub_cancel_left] at hcard

/-- The frames from 1 MiB on are free. -/
def fromMegabyte : Bitmap := fun i => if i < 0x20 then 0xFF else 0

lemma fromMegabyte_free {f : ℕ} : fromMegabyte.Free f ↔ 0x100 ≤ f := by
  rw [free_iff]
  have hall : ∀ k < 8, (0xFF : BitVec 8).getLsbD k = true := by decide
  simp only [fromMegabyte]
  split_ifs with hf
  · rw [hall _ (bit_lt f)]
    exact iff_of_false (by decide) (by omega)
  · exact iff_of_true (by simp) (by omega)

lemma fromMegabyte_freeCount : 4 ≤ fromMegabyte.freeCount :=
  le_freeCount (Nat.le_refl 0x100) (by decide) fun _ hf _ => fromMegabyte_free.2 hf

end Bitmap

namespace Machine

variable {s s' : Machine} {page w f i k t : ℕ} {v : PageTableItem} {content : Page} {f' : ℕ}

def poke (s : Machine) (f w : ℕ) (v : PageTableItem) : Machine :=
  { s with mem := update s.mem f (update (s.mem f) w v) }

@[simp] lemma poke_self : (s.poke f w v).mem f w = v := by simp [poke]

lemma poke_of_ne {w' : ℕ} (h : f' ≠ f ∨ w' ≠ w) : (s.poke f w v).mem f' w' = s.mem f' w' := by
  unfold poke
  rcases eq_or_ne f' f with rfl | hf
  · simp [h.resolve_left (not_not.2 rfl)]
  · simp [hf]

lemma poke_frame_of_ne (h : f' ≠ f) : (s.poke f w v).mem f' = s.mem f' :=
  funext fun _ => poke_of_ne (.inl h)

lemma poke_poke (v' : PageTableItem) : (s.poke f w v).poke f w v' = s.poke f w v' := by simp [poke]

lemma modify_eq (h : s.translate page = some f) (g : PageTableItem → PageTableItem) :
    s.modify page w g = some (s.poke f w (g (s.mem f w))) := by
  simp [modify, read, write, h, poke]

lemma modify_modify {β : Type*} (h : s.translate page = some f)
    (h' : ∀ v, (s.poke f w v).translate page = some f) (g g' : PageTableItem → PageTableItem)
    (rest : Machine → Option β) :
    (s.modify page w g).bind (fun s => (s.modify page w g').bind rest) = rest (s.poke f w (g' (g (s.mem f w)))) := by
  rw [modify_eq h, bind_some, modify_eq (h' _), poke_poke, poke_self, bind_some]

def fill (s : Machine) (f : ℕ) (content : Page) : Machine :=
  { s with mem := update s.mem f content }

@[simp] lemma fill_self : (s.fill f content).mem f = content := by simp [fill]

lemma fill_of_ne (h : f' ≠ f) : (s.fill f content).mem f' = s.mem f' := by simp [fill, h]

lemma poke_fill : (s.fill f content).poke f w v = s.fill f (update content w v) := by simp [poke, fill]

lemma writePage_eq (h : s.translate page = some f) (content : Page) :
    s.writePage page content = some (s.fill f content) := by
  rw [writePage, h]
  rfl

def SelfMapped (s : Machine) : Prop := tableFrame s.mem s.cr3 1023 = some s.cr3

lemma translate_mul_add (hk : k < 1024) : s.translate (i * 1024 + k) = pageFrame s.mem s.cr3 i k := by
  unfold translate
  rw [show (i * 1024 + k) / 1024 = i by omega, show (i * 1024 + k) % 1024 = k by omega]

section

variable (h : s.SelfMapped)

include h

lemma translate_tablePage (hi : i < 1024) : s.translate (tablePage i) = tableFrame s.mem s.cr3 i := by
  rw [tablePage, translate_mul_add hi, pageFrame, show tableFrame s.mem s.cr3 1023 = _ from h]
  rfl

lemma translate_entryPage : s.translate entryPage = some s.cr3 := by
  rw [← h, ← translate_tablePage h (by decide : 1023 < 1024)]
  rfl

lemma SelfMapped.poke_entry (hi : i ≠ 1023) : (s.poke s.cr3 i v).SelfMapped :=
  (tableFrame_congr (poke_of_ne (.inr hi.symm))).trans h

lemma SelfMapped.poke_table (ht : t ≠ s.cr3) : (s.poke t k v).SelfMapped :=
  (tableFrame_congr (poke_of_ne (.inl ht.symm))).trans h

lemma SelfMapped.congr (hcr3 : s'.cr3 = s.cr3) (hdir : s'.mem s.cr3 1023 = s.mem s.cr3 1023) : s'.SelfMapped := by
  rwa [SelfMapped, hcr3, tableFrame_congr hdir]

lemma modify_table {β : Type*} (hi : i < 1024)
    (ht : tableFrame s.mem s.cr3 i = some t) (hne : t ≠ s.cr3) (g g' : PageTableItem → PageTableItem)
    (rest : Machine → Option β) :
    (s.modify (tablePage i) k g).bind (fun s => (s.modify (tablePage i) k g').bind rest) =
      rest (s.poke t k (g' (g (s.mem t k)))) :=
  modify_modify ((translate_tablePage h hi).trans ht) (fun _ =>
    (translate_tablePage (h.poke_table hne) hi).trans
      ((tableFrame_congr (poke_of_ne (.inl hne.symm))).trans ht)) g g' rest

lemma read_entry : s.read entryPage i = some (s.mem s.cr3 i) := by
  rw [read, translate_entryPage h]
  rfl

lemma read_table (hi : i < 1024) (ht : tableFrame s.mem s.cr3 i = some t) :
    s.read (tablePage i) k = some (s.mem t k) := by
  rw [read, translate_tablePage h hi, ht]
  rfl

lemma getPhysicalAddress_eq (hp : page / 1024 < 1024)
    (hf : s.translate page = some f) : s.getPhysicalAddress page = some f := by
  obtain ⟨t, ht, hk⟩ := pageFrame_eq_some.1 hf
  simp [getPhysicalAddress, read_table h hp ht, (tableFrame_eq_some.1 hk).2]

end

lemma allocate_eq_some (h : s.allocate = some (f, s')) :
    s.bitmap.Free f ∧ f < 2 ^ 20 ∧ s' = { s with bitmap := s.bitmap.mark f } ∧
      s.bitmap.freeCount = s'.bitmap.freeCount + 1 := by
  simp only [allocate, map_eq_some_iff, Prod.exists] at h
  obtain ⟨g, b, hb, heq⟩ := h
  cases heq
  obtain ⟨hfree, hlt, rfl, hcount⟩ := Bitmap.allocatePhysicalMemory_eq_some hb
  exact ⟨hfree, hlt, rfl, hcount⟩

lemma exists_allocate (h : 0 < s.bitmap.freeCount) : ∃ f s', s.allocate = some (f, s') := by
  obtain ⟨f, b, hb⟩ := Bitmap.exists_allocatePhysicalMemory h
  exact ⟨f, _, by rw [allocate, hb]; rfl⟩

/-- The machine after a free frame `f` is marked, entered as the word `k` of `t`, and filled. -/
def attach (s : Machine) (t k : ℕ) (v : PageTableItem) (f : ℕ) (content : Page) : Machine where
  mem := update (s.poke t k v).mem f content
  bitmap := s.bitmap.mark f
  cr3 := s.cr3

section Attach

variable {content : Page} {f' : ℕ}

@[simp] lemma attach_new : (s.attach t k v f content).mem f = content := by simp [attach]

lemma attach_item (h : t ≠ f) : (s.attach t k v f content).mem t k = v := by simp [attach, h]

lemma attach_of_ne {w' : ℕ} (hf : f' ≠ f) (h : f' ≠ t ∨ w' ≠ k) :
    (s.attach t k v f content).mem f' w' = s.mem f' w' := by
  simp only [attach, update_of_ne hf]
  exact poke_of_ne h

lemma attach_frame_of_ne (hf : f' ≠ f) (h : f' ≠ t) : (s.attach t k v f content).mem f' = s.mem f' :=
  funext fun _ => attach_of_ne hf (.inl h)

lemma attach_free : (s.attach t k v f content).bitmap.Free f' ↔ f' ≠ f ∧ s.bitmap.Free f' := Bitmap.free_mark

lemma tableFrame_attach {v flags : PageTableItem} (ht : t ≠ f) (hf : f < 2 ^ 20)
    (hp : flags.getLsbD 0 = true) (hz : flags >>> 12 = 0#32) :
    tableFrame (s.attach t k ((v.setAddress (ofFrame f)).enableFlag flags) f content).mem t k = some f :=
  tableFrame_of_set hf (attach_item ht) hp hz

lemma attach_entry (content : Page) (flags : PageTableItem) (h : s.SelfMapped) (hi : i < 1023)
    (hp : flags.getLsbD 0 = true) (hz : flags >>> 12 = 0#32) (ha : s.allocate = some (f, s')) :
    ((s'.modify entryPage i (·.setAddress (ofFrame f))).bind fun s =>
      (s.modify entryPage i (·.enableFlag flags)).bind fun s => s.writePage (tablePage i) content) =
      some (s.attach s.cr3 i (((s.mem s.cr3 i).setAddress (ofFrame f)).enableFlag flags) f content) := by
  obtain ⟨-, hlt, rfl, -⟩ := allocate_eq_some ha
  have h' : ({ s with bitmap := s.bitmap.mark f } : Machine).SelfMapped := h
  have hself : ∀ v, (poke { s with bitmap := s.bitmap.mark f } s.cr3 i v).SelfMapped :=
    fun v => SelfMapped.poke_entry h' (Nat.ne_of_lt hi)
  refine (modify_modify (translate_entryPage h') (fun v => translate_entryPage (hself v)) _ _
    _).trans (writePage_eq ?_ content)
  rw [translate_tablePage (hself _) (by omega)]
  exact tableFrame_of_set hlt poke_self hp hz

lemma attach_table (page : ℕ) (content : Page) (flags : PageTableItem) (h : s.SelfMapped)
    (hi : page / 1024 < 1024) (ht : tableFrame s.mem s.cr3 (page / 1024) = some t)
    (hne : t ≠ s.cr3) (hp : flags.getLsbD 0 = true) (hz : flags >>> 12 = 0#32)
    (ha : s.allocate = some (f, s')) :
    ((s'.modify (tablePage (page / 1024)) (page % 1024) (·.setAddress (ofFrame f))).bind fun s =>
      (s.modify (tablePage (page / 1024)) (page % 1024) (·.enableFlag flags)).bind fun s =>
        s.writePage page content) =
      some (s.attach t (page % 1024) (((s.mem t (page % 1024)).setAddress (ofFrame f)).enableFlag flags) f
        content) := by
  obtain ⟨-, hlt, rfl, -⟩ := allocate_eq_some ha
  have h' : ({ s with bitmap := s.bitmap.mark f } : Machine).SelfMapped := h
  refine (modify_table h' hi ht hne _ _ _).trans (writePage_eq (pageFrame_eq_some.2 ⟨t, ?_, ?_⟩) content)
  · exact (tableFrame_congr (poke_of_ne (.inl hne.symm))).trans ht
  · exact tableFrame_of_set hlt poke_self hp hz

end Attach

end Machine

section Reach

variable {mem : ℕ → Page} {d i k t f : ℕ}

lemma Reachable.table (hi : i < 1024) (h : tableFrame mem d i = some f) : Reachable mem d f :=
  .inr ⟨i, hi, .inl h⟩

lemma Reachable.page (hi : i < 1024) (hk : k < 1024) (ht : tableFrame mem d i = some t)
    (h : tableFrame mem t k = some f) : Reachable mem d f :=
  .inr ⟨i, hi, .inr ⟨k, hk, pageFrame_eq_some.2 ⟨t, ht, h⟩⟩⟩

lemma KernelTable.reachable (h : KernelTable mem d f) : Reachable mem d f := by
  obtain ⟨i, -, hi, ht⟩ := h
  exact .table (by omega) ht

end Reach

namespace Current

variable {s : Machine} {d f : ℕ}

lemma selfMapped (h : Current s d) : s.SelfMapped := by
  unfold Machine.SelfMapped
  rw [h.cr3]
  exact h.self

lemma not_free (h : Current s d) : ¬ s.bitmap.Free d := h.used d (.inl rfl)

lemma kernelTable_ne (h : Current s d) (hf : KernelTable s.mem d f) : f ≠ d := by
  obtain ⟨i, hlo, hhi, ht⟩ := hf
  obtain ⟨t, ht', hne⟩ := h.kernel i hlo hhi
  cases ht.symm.trans ht'
  exact hne

end Current

/-- What binding pages of the kernel may change: it takes at most `n` frames that were free, and sets
words of the kernel's tables that were not present. -/
structure KernelBinds (s s' : Machine) (d n : ℕ) : Prop where
  ready : Current s' d
  dir : s'.mem d = s.mem d
  frames : ∀ f, ¬ s.bitmap.Free f → ¬ KernelTable s.mem d f → s'.mem f = s.mem f
  words : ∀ t k f, KernelTable s.mem d t → tableFrame s.mem t k = some f → s'.mem t k = s.mem t k
  free : ∀ f, s'.bitmap.Free f → s.bitmap.Free f
  count : s.bitmap.freeCount ≤ s'.bitmap.freeCount + n

namespace KernelBinds

variable {s s' s'' : Machine} {d n m : ℕ}

lemma refl (h : Current s d) (n : ℕ) : KernelBinds s s d n :=
  ⟨h, rfl, fun _ _ _ => rfl, fun _ _ _ _ _ => rfl, fun _ hf => hf, by omega⟩

lemma kernelTable_iff (h : KernelBinds s s' d n) (f : ℕ) : KernelTable s'.mem d f ↔ KernelTable s.mem d f := by
  unfold KernelTable tableFrame
  rw [h.dir]

lemma trans (h : KernelBinds s s' d n) (h' : KernelBinds s' s'' d m) : KernelBinds s s'' d (n + m) := by
  refine ⟨h'.ready, h'.dir.trans h.dir, fun f hf hk => ?_, fun t k f ht hf => ?_,
    fun f hf => h.free f (h'.free f hf), ?_⟩
  · rw [h'.frames f (fun hf' => hf (h.free f hf')) (fun hk' => hk ((h.kernelTable_iff f).1 hk')), h.frames f hf hk]
  · have hw := h.words t k f ht hf
    rw [h'.words t k f ((h.kernelTable_iff t).2 ht) ((tableFrame_congr hw).trans hf), hw]
  · have := h.count
    have := h'.count
    omega

lemma pageFrame_eq (h : KernelBinds s s' d n) {i k f : ℕ} (hlo : 768 ≤ i) (hhi : i < 1023)
    (hf : pageFrame s.mem d i k = some f) : pageFrame s'.mem d i k = some f := by
  obtain ⟨t, ht, hk⟩ := pageFrame_eq_some.1 hf
  refine pageFrame_eq_some.2 ⟨t, (tableFrame_congr (congrFun h.dir i)).trans ht, ?_⟩
  exact (tableFrame_congr (h.words t k f ⟨i, hlo, hhi, ht⟩ hk)).trans hk

lemma attach (h : Current s d) {t k f : ℕ} (v : PageTableItem) {flags : PageTableItem}
    (content : Page) (ht : KernelTable s.mem d t) (hk : tableFrame s.mem t k = none)
    (hp : flags.getLsbD 0 = true) (hz : flags >>> 12 = 0#32) (ha : s.allocate = some (f, s')) :
    KernelBinds s (s.attach t k ((v.setAddress (ofFrame f)).enableFlag flags) f content) d 1 := by
  obtain ⟨hfree, hlt, rfl, hcount⟩ := allocate_eq_some ha
  have hne : ∀ g, Reachable s.mem d g → g ≠ f := fun g hg heq => h.used g hg (heq ▸ hfree)
  have htd := h.kernelTable_ne ht
  have htf := hne t ht.reachable
  have hdir : (s.attach t k ((v.setAddress (ofFrame f)).enableFlag flags) f
      content).mem d = s.mem d := attach_frame_of_ne (hne d (.inl rfl)) htd.symm
  have htable : ∀ i, tableFrame (s.attach t k ((v.setAddress (ofFrame f)).enableFlag flags) f content).mem d i =
      tableFrame s.mem d i := fun i => tableFrame_congr (congrFun hdir i)
  have hold : ∀ g, ¬ s.bitmap.Free g → ¬ (s.attach t k
      ((v.setAddress (ofFrame f)).enableFlag flags) f content).bitmap.Free g :=
    fun g hg hg' => hg (attach_free.1 hg').2
  refine ⟨⟨h.cr3, (htable 1023).trans h.self, fun i hlo hhi => ?_, fun g hg => ?_⟩, hdir,
    fun g hg hgk => ?_, fun t' k' g ht' hg => ?_, fun g hg => (attach_free.1 hg).2, ?_⟩
  · rw [htable]
    exact h.kernel i hlo hhi
  · rcases hg with rfl | ⟨i, hi, hg | ⟨k', hk', hg⟩⟩
    · exact hold g h.not_free
    · rw [htable] at hg
      exact hold g (h.used g (.table hi hg))
    · obtain ⟨t', ht', hg⟩ := pageFrame_eq_some.1 hg
      rw [htable] at ht'
      by_cases heq : t' = t ∧ k' = k
      · obtain ⟨rfl, rfl⟩ := heq
        rw [tableFrame_attach htf hlt hp hz] at hg
        cases hg
        exact fun hfr => (attach_free.1 hfr).1 rfl
      · rw [tableFrame_congr (attach_of_ne (hne t' (.table hi ht')) (not_and_or.1 heq))] at hg
        exact hold g (h.used g (.page hi hk' ht' hg))
  · exact attach_frame_of_ne (fun heq => hg (heq ▸ hfree)) (fun heq => hgk (heq ▸ ht))
  · refine attach_of_ne (hne t' ht'.reachable) (not_and_or.1 ?_)
    rintro ⟨rfl, rfl⟩
    cases hk.symm.trans hg
  · exact Nat.le_of_eq hcount

lemma fill (hs : Current s d) (h : KernelBinds s s' d n) {e : ℕ} (he : s.bitmap.Free e)
    (content : Page) : KernelBinds s (s'.fill e content) d n := by
  have hne : ∀ g, Reachable s.mem d g → g ≠ e := fun g hg heq => hs.used g hg (heq ▸ he)
  have hdir : (s'.fill e content).mem d = s'.mem d := fill_of_ne (hne d (.inl rfl))
  have htable : ∀ i, tableFrame (s'.fill e content).mem d i = tableFrame s'.mem d i :=
    fun i => tableFrame_congr (congrFun hdir i)
  refine ⟨⟨h.ready.cr3, (htable 1023).trans h.ready.self, fun i hlo hhi => ?_, fun g hg => ?_⟩,
    hdir.trans h.dir, fun f hf hk => ?_, fun t k f ht hf => ?_, h.free, h.count⟩
  · rw [htable]
    exact h.ready.kernel i hlo hhi
  · refine h.ready.used g ?_
    rcases hg with rfl | ⟨i, hi, hg | ⟨k, hk, hg⟩⟩
    · exact .inl rfl
    · exact .table hi ((htable i).symm.trans hg)
    · obtain ⟨t, ht, hg⟩ := pageFrame_eq_some.1 hg
      rw [htable] at ht
      have hts : tableFrame s.mem d i = some t := (tableFrame_congr (congrFun h.dir i)).symm.trans ht
      refine .page hi hk ht ?_
      rw [← hg]
      exact (tableFrame_congr (by rw [fill_of_ne (hne t (.table hi hts))])).symm
  · have hfe : f ≠ e := fun heq => hf (heq ▸ he)
    rw [fill_of_ne hfe]
    exact h.frames f hf hk
  · rw [fill_of_ne (hne t ht.reachable)]
    exact h.words t k f ht hf

end KernelBinds

lemma UserMode.flags_present (mode : UserMode) : mode.flags.getLsbD 0 = true := by cases mode <;> decide

lemma UserMode.flags_low (mode : UserMode) : mode.flags >>> 12 = 0#32 := by cases mode <;> decide

lemma Current.bindVirtualPage {s : Machine} {d : ℕ} (h : Current s d) (page : ℕ)
    (hlo : 768 ≤ page / 1024) (hhi : page / 1024 < 1023) (hfree : 0 < s.bitmap.freeCount)
    (mode : UserMode) :
    ∃ s', s.bindVirtualPage page mode = some s' ∧ KernelBinds s s' d 1 ∧
      ∃ f, pageFrame s'.mem d (page / 1024) (page % 1024) = some f ∧
        (pageFrame s.mem d (page / 1024) (page % 1024) = none →
          s.bitmap.Free f ∧ ¬ s'.bitmap.Free f ∧ s'.mem f = fun _ => 0) := by
  obtain ⟨t, ht, htd⟩ := h.kernel _ hlo hhi
  have hkt : KernelTable s.mem d t := ⟨_, hlo, hhi, ht⟩
  have hself := h.selfMapped
  have ht' : tableFrame s.mem s.cr3 (page / 1024) = some t := by rw [h.cr3]; exact ht
  have hentry := (tableFrame_eq_some.1 ht').1
  unfold Machine.bindVirtualPage Machine.bindPage
  simp only [read_entry hself, read_table hself (by omega : page / 1024 < 1024) ht', bind_eq_bind, bind_some, hentry]
  rcases hk : tableFrame s.mem t (page % 1024) with _ | g
  · have habs : (s.mem t (page % 1024)).getFlag present = false := by
      by_contra hno
      simp [tableFrame, hno] at hk
    obtain ⟨f, s1, ha⟩ := exists_allocate hfree
    simp only [habs, ha, bind_some]
    rw [attach_table page _ _ hself (by omega) ht' (h.cr3.symm ▸ htd) mode.flags_present mode.flags_low ha]
    have hbinds := KernelBinds.attach h (s.mem t (page % 1024)) (fun _ => 0) hkt hk
      mode.flags_present mode.flags_low ha
    obtain ⟨hf, hlt, -, -⟩ := allocate_eq_some ha
    have htf : t ≠ f := fun heq => h.used t hkt.reachable (heq ▸ hf)
    refine ⟨_, rfl, hbinds, f, pageFrame_eq_some.2 ⟨t, ?_, ?_⟩, fun _ => ⟨hf, ?_, ?_⟩⟩
    · exact (tableFrame_congr (congrFun hbinds.dir _)).trans ht
    · exact tableFrame_attach htf hlt mode.flags_present mode.flags_low
    · exact fun hfr => (attach_free.1 hfr).1 rfl
    · exact attach_new
  · simp only [(tableFrame_eq_some.1 hk).1]
    refine ⟨s, rfl, KernelBinds.refl h 1, g, pageFrame_eq_some.2 ⟨t, ht, hk⟩, fun hno => ?_⟩
    rw [pageFrame_eq_some.2 ⟨t, ht, hk⟩] at hno
    cases hno

end OlliOS
