import OlliOS.FileDescriptors
import OlliOS.Lib.Words

/-!
# Which calls check their descriptors

Each function has a rule for what it does inside the table (`…_leads`); a call leaves the table or
dereferences a null pointer where no rule applies.
-/

namespace OlliOS

open Journal List Leads Stop Int32

lemma toInt_lt_zero {i : Int32} : i < 0 ↔ i.toInt < 0 := lt_iff_toInt_lt

lemma toUInt32_lt_maxCount {i : Int32} : i.toUInt32.toNat < maxCount ↔ InTable i.toInt := by
  have h := Words.toInt_signed i
  have hlt := i.toUInt32.toNat_lt
  unfold InTable maxCount
  split_ifs at h <;> omega

namespace Files

variable {σ : Type}

def vacate (s : Files σ) (i : ℤ) : Files σ :=
  if (s.data i).used then (s.setSlot i { s.data i with used := false }).reset i else s

def drop (s : Files σ) : Option ℕ → Files σ
  | none => s
  | some d => s.release d

section

variable (s : Files σ)

include s

@[simp] lemma release_data (d : ℕ) : (s.release d).data = s.data := by
  unfold release
  dsimp only
  split_ifs <;> rfl

@[simp] lemma drop_data (p : Option ℕ) : (s.drop p).data = s.data := by
  cases p with
  | none => rfl
  | some d => exact s.release_data d

lemma release_setSlot (d : ℕ) (i : ℤ) (v : Slot) : (s.setSlot i v).release d = (s.release d).setSlot i v := by
  by_cases h : (s.info d).strongCount - 1 = 0 <;> simp [release, setSlot, destroy, h]

lemma drop_setSlot (p : Option ℕ) (i : ℤ) (v : Slot) : (s.setSlot i v).drop p = (s.drop p).setSlot i v := by
  cases p with
  | none => rfl
  | some d => exact s.release_setSlot d i v

@[simp] lemma setSlot_data_self (i : ℤ) (v : Slot) : (s.setSlot i v).data i = v := by simp [setSlot]

lemma setSlot_data_of_ne {i j : ℤ} (v : Slot) (h : j ≠ i) : (s.setSlot i v).data j = s.data j := by
  simp [setSlot, h]

@[simp] lemma setSlot_setSlot (i : ℤ) (v w : Slot) : (s.setSlot i v).setSlot i w = s.setSlot i w := by
  simp [setSlot]

lemma reset_eq (i : ℤ) : s.reset i = (s.drop (s.data i).entry).setSlot i ⟨(s.data i).used, none⟩ := by
  unfold reset drop setEntry
  rcases hv : s.data i with ⟨used, _ | d⟩
  · simp [setSlot, ← hv]
  · simp [hv]

end

lemma vacate_of_used {s : Files σ} {i : ℤ} (h : (s.data i).used = true) :
    s.vacate i = (s.drop (s.data i).entry).setSlot i ⟨false, none⟩ := by
  rw [vacate, if_pos h, reset_eq, setSlot_data_self, drop_setSlot, setSlot_setSlot]

lemma vacate_of_unused {s : Files σ} {i : ℤ} (h : (s.data i).used = false) : s.vacate i = s := by
  simp [vacate, h]

lemma vacate_used (s : Files σ) (i : ℤ) : ((s.vacate i).data i).used = false := by
  cases h : (s.data i).used with
  | true => rw [vacate_of_used h, setSlot_data_self]
  | false => rw [vacate_of_unused h, h]

lemma vacate_data_of_ne (s : Files σ) {i j : ℤ} (hne : j ≠ i) : (s.vacate i).data j = s.data j := by
  cases h : (s.data i).used with
  | true => rw [vacate_of_used h, setSlot_data_of_ne _ _ hne, drop_data]
  | false => rw [vacate_of_unused h]

end Files

namespace SysCall

variable {σ α : Type} {s : Files σ} {i : Int32} {j : ℤ} {f : Files σ → Option (σ × α)} {R : Files σ → Prop}
  {b a : Int32}

@[simp] lemma run_index (j : ℤ) : (index j).run s = ⟨s, [j], .ok (s.data j)⟩ := rfl

@[simp] lemma run_store (j : ℤ) (v : Slot) : (store j v).run s = ⟨s.setSlot j v, [j], .ok ()⟩ := rfl

@[simp] lemma run_deref_none : (deref none : SysCall σ α).run s = ⟨s, [], .error .null⟩ := rfl

@[simp] lemma run_deref_some (a : α) : (deref (some a)).run s = ⟨s, [], .ok a⟩ := rfl

lemma entryAt_of_neg (h : i.toInt < 0) : (entryAt i).run s = ⟨s, [], .ok none⟩ := by
  simp [entryAt, toInt_lt_zero.2 h]

lemma entryAt_of_nonneg (h : 0 ≤ i.toInt) : (entryAt i).run s =
      ⟨s, [i.toInt], .ok (if (s.data i.toInt).used then some i.toInt else none)⟩ := by
  have hneg : ¬ i < 0 := fun hi => absurd (toInt_lt_zero.1 hi) (by omega)
  simp [entryAt, hneg, run_bind, Outcome.after]

section Opened

variable {fail : α} {body : ℤ → SysCall σ α}

lemma opened_of_neg (h : i.toInt < 0) : (opened i fail body).run s = ⟨s, [], .ok fail⟩ := by
  rw [opened, run_bind_ok (entryAt_of_neg h)]
  rfl

lemma opened_of_unused (h : 0 ≤ i.toInt) (hu : (s.data i.toInt).used = false) :
    (opened i fail body).run s = ⟨s, [i.toInt], .ok fail⟩ := by
  have hentry := entryAt_of_nonneg (s := s) h
  rw [hu] at hentry
  rw [opened, run_bind_ok hentry]
  rfl

lemma opened_of_used (h : 0 ≤ i.toInt) (hu : (s.data i.toInt).used = true) :
    (opened i fail body).run s = ((body i.toInt).run s).after [i.toInt] := by
  have hentry := entryAt_of_nonneg (s := s) h
  rw [hu] at hentry
  rw [opened, run_bind_ok hentry]
  rfl

lemma opened_refused (hlt : i.toInt < maxCount) (h : ¬ s.IsOpen i) :
    ∃ l, (∀ j ∈ l, InTable j) ∧ (opened i fail body).run s = ⟨s, l, .ok fail⟩ := by
  by_cases hneg : i.toInt < 0
  · exact ⟨[], by simp, opened_of_neg hneg⟩
  · have hin : InTable i.toInt := ⟨by omega, hlt⟩
    have hu : (s.data i.toInt).used = false := by
      by_contra hu
      exact h ⟨hin, by simpa using hu⟩
    exact ⟨[i.toInt], by simpa using hin, opened_of_unused hin.1 hu⟩

lemma opened_leads {t : Files σ} {a : α} (h : s.IsOpen i)
    (hbody : Leads InTable (body i.toInt) s t a) : Leads InTable (opened i fail body) s t a := by
  obtain ⟨l, hl, hrun⟩ := hbody
  refine ⟨i.toInt :: l, ?_, ?_⟩
  · rintro j (_ | ⟨_, hj⟩)
    · exact h.1
    · exact hl j hj
  · rw [opened_of_used h.1.1 h.2, hrun]
    rfl

lemma opened_avoids_iff : Avoids InTable null (opened i fail body) s ↔
    i.toInt < maxCount ∧ (s.IsOpen i → Avoids InTable null (body i.toInt) s) := by
  by_cases hlt : i.toInt < maxCount
  · by_cases ho : s.IsOpen i
    · have hrun : (opened i fail body).run s = ((body i.toInt).run s).after [i.toInt] :=
        opened_of_used ho.1.1 ho.2
      unfold Avoids
      rw [hrun]
      simp [hlt, ho, ho.1]
    · have hleads : Leads InTable (opened i fail body) s s fail := opened_refused hlt ho
      simp [hleads.avoids, hlt, ho]
  · simp only [hlt, false_and, iff_false]
    rintro ⟨hlog, -⟩
    have hmem : i.toInt ∈ ((opened i fail body).run s).log := by
      have hnonneg : 0 ≤ i.toInt := by omega
      refine mem_log_bind ?_
      rw [entryAt_of_nonneg hnonneg]
      exact mem_singleton_self _
    exact hlt (hlog _ hmem).2

end Opened

lemma index_leads (h : InTable j) : Leads InTable (index j) s s (s.data j) := ⟨[j], by simpa using h, rfl⟩

lemma store_leads (h : InTable j) (v : Slot) : Leads InTable (store j v) s (s.setSlot j v) () :=
  ⟨[j], by simpa using h, rfl⟩

lemma entryAt_leads (h : InTable i.toInt) :
    Leads InTable (entryAt i) s s (if (s.data i.toInt).used then some i.toInt else none) :=
  ⟨[i.toInt], by simpa using h, entryAt_of_nonneg h.1⟩

lemma freeResource_leads (h : InTable i.toInt) : Leads InTable (freeResource i) s (s.vacate i.toInt) () := by
  unfold freeResource Files.vacate
  rw [if_pos (toUInt32_lt_maxCount.2 h)]
  refine (index_leads h).bind ?_
  split_ifs with hu
  · exact (store_leads h _).bind (modify _)
  · exact pure ()

lemma close_leads (h : s.IsOpen i) : Leads InTable (close i) s (s.vacate i.toInt) 0 :=
  opened_leads h ((freeResource_leads h.1).bind (pure 0))

lemma newResourceFrom_leads : ∀ is : List ℕ, (∀ j ∈ is, j < maxCount) →
    Leads InTable (newResourceFrom is) s s (-1) ∨
    ∃ j : ℕ, j < maxCount ∧ (s.data j).used = false ∧
      Leads InTable (newResourceFrom is) s (s.setSlot j ⟨true, none⟩) (ofNat j)
  | [], _ => .inl (pure _)
  | j :: is, his => by
    have hj : j < maxCount := his j mem_cons_self
    have hin : InTable j := ⟨by omega, by omega⟩
    cases hu : (s.data j).used with
    | true =>
      have hstep : ∀ {t a}, Leads InTable (newResourceFrom is) s t a →
          Leads InTable (newResourceFrom (j :: is)) s t a := by
        intro t a h
        refine (index_leads hin).bind ?_
        rwa [if_pos hu]
      rcases newResourceFrom_leads is fun k hk => his k (mem_cons_of_mem _ hk) with h | ⟨k, hk, hku, h⟩
      · exact .inl (hstep h)
      · exact .inr ⟨k, hk, hku, hstep h⟩
    | false =>
      refine .inr ⟨j, hj, hu, (index_leads hin).bind ?_⟩
      rw [if_neg (by simp [hu])]
      exact (store_leads hin _).bind (pure _)

lemma newResourceAt_leads (h : InTable i.toInt) (hu : (s.data i.toInt).used = false) :
    Leads InTable (newResourceAt i) s (s.setSlot i.toInt ⟨true, none⟩) (some i.toInt) := by
  refine (index_leads h).bind ?_
  rw [if_neg (by simp [hu])]
  refine (store_leads h _).bind ?_
  have hentry := entryAt_leads (s := s.setSlot i.toInt ⟨true, none⟩) h
  simpa [Files.setSlot] using hentry

lemma toInt_ofNat {j : ℕ} (h : j < maxCount) : (Int32.ofNat j).toInt = j := by
  unfold maxCount at h
  exact Int32.toInt_ofNat_of_lt (by omega)

lemma newResource_leads : Leads InTable newResource s s (-1) ∨ ∃ j : ℕ, j < maxCount ∧ (s.data j).used = false ∧
      Leads InTable newResource s (s.setSlot j ⟨true, none⟩) (ofNat j) :=
  newResourceFrom_leads (List.range maxCount) fun _ hj => mem_range.1 hj

lemma newSlot_leads {j : ℕ} (hj : j < maxCount) (g : ℤ → Files σ → Files σ) (full : SysCall σ Int32) :
    Leads InTable (if Int32.ofNat j < 0 then full else do
        let desc ← entryAt (ofNat j)
        let desc ← deref desc
        Journal.modify (g desc)
        return ofNat j) (s.setSlot j ⟨true, none⟩)
      (g j (s.setSlot j ⟨true, none⟩)) (Int32.ofNat j) := by
  have hpos := toInt_ofNat hj
  have hneg : ¬ Int32.ofNat j < 0 := by
    rw [toInt_lt_zero, hpos]
    omega
  have hin : InTable (Int32.ofNat j).toInt := by exact ⟨by omega, by omega⟩
  have hentry := entryAt_leads (s := s.setSlot j ⟨true, none⟩) hin
  rw [hpos, Files.setSlot_data_self] at hentry
  rw [if_neg hneg]
  exact hentry.bind ((Leads.pure _).bind ((Leads.modify _).bind (Leads.pure _)))

lemma dup_leads (h : s.IsOpen i) : Leads InTable (dup i) s s (-1) ∨
    ∃ j : ℕ, j < maxCount ∧ (s.data j).used = false ∧
      Leads InTable (dup i) s ((s.setSlot j ⟨true, none⟩).assign j i.toInt) (ofNat j) := by
  rcases newResource_leads with hfull | ⟨j, hj, hu, hnew⟩
  · refine .inl (opened_leads h (hfull.bind ?_))
    exact pure _
  · exact .inr ⟨j, hj, hu, opened_leads h (hnew.bind (newSlot_leads hj _ _))⟩

lemma renew_leads (hb : InTable b.toInt) (hu : (s.data b.toInt).used = false) (j : ℤ) : Leads InTable (do
        let newdesc ← newResourceAt b
        let newdesc ← deref newdesc
        Journal.modify (·.assign newdesc j)
        return b) s
      ((s.setSlot b.toInt ⟨true, none⟩).assign b.toInt j) b :=
  (newResourceAt_leads hb hu).bind ((Leads.pure b.toInt).bind ((Leads.modify _).bind (Leads.pure b)))

lemma dup2_leads (ha : s.IsOpen a) (hb : InTable b.toInt) : Leads InTable (dup2 a b) s
      (((s.vacate b.toInt).setSlot b.toInt ⟨true, none⟩).assign b.toInt a.toInt) b := by
  refine opened_leads ha ((entryAt_leads hb).bind ?_)
  have hrest := renew_leads hb (s.vacate_used b.toInt) a.toInt
  cases hu : (s.data b.toInt).used with
  | true => exact (close_leads ⟨hb, hu⟩).bind hrest
  | false =>
    rw [Files.vacate_of_unused hu] at hrest ⊢
    exact hrest

lemma description_leads {d : ℕ} (h : (s.data j).entry = some d) : Leads InTable (description j) s s d := by
  refine get.bind ?_
  rw [h]
  exact pure d

lemma run_perform {world : σ} {a : α} (h : f s = some (world, a)) :
    (perform f).run s = ⟨{ s with world }, [], .ok a⟩ := by
  rw [perform, run_bind_ok run_get, h]
  rfl

lemma run_perform_none (h : f s = none) : (perform f).run s = ⟨s, [], .error .stuck⟩ := by
  rw [perform, run_bind_ok run_get, h]
  rfl

lemma perform_avoids (f : Files σ → Option (σ × α)) : Avoids InTable null (perform f) s := by
  refine (get.avoids_bind_iff).2 ?_
  cases f s with
  | none => exact ⟨by simp, by simp⟩
  | some r => exact ((Leads.modify _).bind (Leads.pure r.2)).avoids

lemma description_avoids_iff {rest : ℕ → SysCall σ α} (hrest : ∀ d, Avoids InTable null (rest d) s) :
    Avoids InTable null (description j >>= rest) s ↔ (s.data j).entry ≠ none := by
  cases h : (s.data j).entry with
  | none =>
    have hstop : (description j).run s = ⟨s, [], .error .null⟩ := by
      rw [description, run_bind_ok run_get, h]
      rfl
    simp [Avoids, run_bind_error hstop]
  | some d => simp [(description_leads h).avoids_bind_iff, hrest d]

lemma dup2_avoids_iff : Avoids InTable null (dup2 a b) s ↔ a.toInt < maxCount ∧ (s.IsOpen a → InTable b.toInt) := by
  constructor
  · intro h
    obtain ⟨hlt, hbody⟩ := opened_avoids_iff.1 h
    refine ⟨hlt, fun ha => (hbody ha).1 _ ?_⟩
    by_cases hneg : b.toInt < 0
    · rw [run_bind_ok (entryAt_of_neg hneg)]
      exact mem_log_bind (mem_log_bind mem_cons_self)
    · refine mem_log_bind ?_
      rw [entryAt_of_nonneg (by omega)]
      exact mem_cons_self
  · rintro ⟨hlt, hb⟩
    by_cases ha : s.IsOpen a
    · exact (dup2_leads ha (hb ha)).avoids
    · exact opened_avoids_iff.2 ⟨hlt, fun ha' => absurd ha' ha⟩

end SysCall

namespace Files

open SysCall

variable {σ α : Type} {s : Files σ} {rest : ℕ → SysCall σ α} {file : Int32} {d : ℕ}

lemma opened_description {fail : α} (hin : InTable file.toInt) (h : s.Refers file.toInt d) :
    (opened file fail fun desc => description desc >>= rest).run s = ((rest d).run s).after [file.toInt] := by
  have hu : (s.data file.toInt).used = true := by rw [h]
  have hd : (description file.toInt).run s = ⟨s, [], .ok d⟩ := by
    rw [description, run_bind_ok run_get, h]
    rfl
  rw [opened_of_used hin.1 hu, run_bind_ok hd]
  rfl

lemma moves_of_refers (hin : InTable file.toInt) (h : s.Refers file.toInt d) : s.Moves file d := by
  constructor
  · intro len world bytes status hread
    rw [SysCall.read, opened_description hin h, run_bind_ok (run_perform hread)]
    rfl
  · intro ptr dir target htarget
    rw [SysCall.lseek, opened_description hin h, run_bind_ok (run_perform (congrArg (Option.map (s.world, ·)) htarget))]
    rfl

lemma checks_iff {c : DescCall}
    (href : Avoids InTable null c.exec s → s.Refuses c → Leads InTable c.exec s s (-1)) :
    s.Checks c ↔ Avoids InTable null c.exec s := by
  constructor
  · exact fun h => ⟨h.inside, h.notNull⟩
  · intro h
    refine ⟨h.1, h.2, fun hr => ?_⟩
    obtain ⟨l, -, hrun⟩ := href h hr
    rw [hrun]
    exact ⟨rfl, fun _ _ => rfl⟩

section Opened

variable {c : DescCall} {file : Int32} {fail : α}

lemma checks_opened_iff {body : ℤ → SysCall σ α}
    (havoids : Avoids InTable null c.exec s ↔ Avoids InTable null (opened file fail body) s)
    (hleads : Leads InTable (opened file fail body) s s fail → Leads InTable c.exec s s (-1))
    (href : s.Refuses c ↔ ¬ s.IsOpen file) :
    s.Checks c ↔ file.toInt < maxCount ∧ (s.IsOpen file → Avoids InTable null (body file.toInt) s) := by
  rw [checks_iff, havoids, opened_avoids_iff]
  intro h hr
  exact hleads (opened_refused (opened_avoids_iff.1 (havoids.1 h)).1 (href.1 hr))

lemma checks_description_iff (havoids : Avoids InTable null c.exec s ↔
      Avoids InTable null (opened file fail fun desc => description desc >>= rest) s)
    (hleads : Leads InTable (opened file fail fun desc => description desc >>= rest) s s fail →
      Leads InTable c.exec s s (-1))
    (href : s.Refuses c ↔ ¬ s.IsOpen file) (hrest : ∀ d, Avoids InTable null (rest d) s) :
    s.Checks c ↔ file.toInt < maxCount ∧ (s.IsOpen file → (s.data file.toInt).entry ≠ none) := by
  rw [checks_opened_iff havoids hleads href, description_avoids_iff hrest]

end Opened

lemma move_avoids {β : Type} (f : Files σ → Option (σ × α)) (g : α → Files σ → Files σ) (r : α → β) :
    Avoids InTable null (do
      let a ← perform f
      Journal.modify (g a)
      return r a) s :=
  (perform_avoids f).bind fun a _ => ((Leads.modify (g a)).bind (Leads.pure (r a))).avoids

theorem checks_iff_guarded (s : Files σ) (c : DescCall) : s.Checks c ↔ s.Guarded c := by
  cases c with
  | close file =>
    rw [checks_opened_iff Iff.rfl id Iff.rfl]
    refine and_iff_left fun ho => ?_
    exact ((freeResource_leads ho.1).bind (Leads.pure (0 : Int32))).avoids
  | read file len =>
    refine checks_description_iff (avoids_map_iff Prod.fst) (fun h => h.bind (pure _)) Iff.rfl ?_
    exact fun d => move_avoids _ _ _
  | write file data len => exact checks_description_iff Iff.rfl id Iff.rfl fun d => move_avoids _ _ _
  | lseek file ptr dir => exact checks_description_iff Iff.rfl id Iff.rfl fun d => move_avoids _ _ _
  | dup filedes =>
    rw [checks_opened_iff Iff.rfl id Iff.rfl]
    refine and_iff_left fun ho => ?_
    have h : Avoids InTable null (dup filedes) s := by
      rcases dup_leads ho with hfull | ⟨j, -, -, hnew⟩
      · exact hfull.avoids
      · exact hnew.avoids
    exact (opened_avoids_iff.1 h).2 ho
  | dup2 filedes filedes2 =>
    rw [checks_iff]
    · exact dup2_avoids_iff
    intro h hr
    obtain ⟨hlt, hb⟩ := dup2_avoids_iff.1 h
    refine opened_refused hlt fun ho => ?_
    rcases hr with hr | hr
    · exact hr ho
    · exact hr (hb ho)
  | readdir filedes =>
    refine checks_description_iff (avoids_map_iff Prod.fst) (fun h => h.bind (pure _)) Iff.rfl ?_
    intro d
    refine (perform_avoids _).bind fun child _ => ?_
    cases child with
    | none => exact (Leads.pure _).avoids
    | some name => exact (Leads.pure _).avoids

def folderFiles : Files ℕ where
  world := 0
  data i := if i = 0 then ⟨true, some 0⟩ else ⟨false, none⟩
  descs _ := ⟨FileHandle.virtualFolder (fun _ => []) Loc.here, 0⟩
  info _ := ⟨1, 1⟩
  closes _ := 0

/-- `close(1024)` looks behind the table, `dup2(0, -1)` in front of it, and `dup2(0, 0)` leaves a null
pointer that `read(0, …)` uses. -/
theorem descriptors_unchecked :
    (¬ folderFiles.Checks (.close 1024) ∧ 1024 ∈ ((SysCall.close 1024).run folderFiles).log) ∧
    (¬ folderFiles.Checks (.dup2 0 (-1)) ∧ -1 ∈ ((SysCall.dup2 0 (-1)).run folderFiles).log ∧
      ((SysCall.dup2 0 (-1)).run folderFiles).result = .error .null) ∧
    ((SysCall.dup2 0 0).run folderFiles).result = .ok 0 ∧
    ¬ ((SysCall.dup2 0 0).run folderFiles).state.Checks (.read 0 1) := by
  have hclose : (1024 : ℤ) ∈ ((SysCall.close 1024).run folderFiles).log := by decide
  have hdup2 : ((SysCall.dup2 0 (-1)).run folderFiles).result = .error .null := rfl
  have hread : ((DescCall.read 0 1).exec.run ((SysCall.dup2 0 0).run folderFiles).state).result = .error .null := rfl
  refine ⟨⟨fun h => ?_, hclose⟩, ⟨fun h => h.notNull hdup2, by decide, hdup2⟩, rfl, fun h => h.notNull hread⟩
  exact absurd (h.inside 1024 hclose) (by decide)

end Files

end OlliOS
