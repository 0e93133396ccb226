import OlliOS.Modules.Mbr

/-!
# The search for partitions

A pass at a device adds one view for each partition of its table.
-/

namespace OlliOS.Mbr

open List Option Loop Scan

variable {registry : Registry} {stack : ℕ → Words.Memory} {devices : List Device} {s t : Scan} {m : Words.Memory}
  {file f : DevFile} {i : ℕ} {found : List DevFile} {header header' : Words.Memory}

lemma readHeader_of_read {h : FileHandle Unit} {bytes : List UInt8} {n : Int32}
    (hread : h.read 512 0 () = some ((), bytes, n)) (hle : bytes.length ≤ 512) :
    readHeader m h = some fun i => bytes.getD i.toNat (m i) := by
  rw [readHeader, hread]
  exact if_pos hle

lemma Device.exists_readHeader (d : Device) (m : Words.Memory) : ∃ header, readHeader m d.handle = some header := by
  obtain ⟨bytes, n, hread, hle⟩ := d.reads 512 0
  exact ⟨_, readHeader_of_read hread hle⟩

lemma mem_viewsOf (hf : f ∈ viewsOf m file) : f.isView = true ∧ f.base = file.base := by
  unfold viewsOf at hf
  rcases hheader : readHeader m file.handle with _ | header
  · rw [hheader] at hf
    cases hf
  · rw [hheader] at hf
    obtain ⟨e, -, rfl⟩ := List.mem_map.1 hf
    exact ⟨rfl, rfl⟩

lemma checkMbr_eq_some_iff : checkMbr registry m file = some found ↔
    ∃ header, readHeader m file.handle = some header ∧ Mounted registry file header ∧ found = viewsOf m file := by
  rcases hheader : readHeader m file.handle with _ | header
  · simp [checkMbr, hheader]
  · simp [checkMbr, viewsOf, hheader, eq_comm]

/-- A pass that goes on has found the views for the table of a file. -/
lemma pass_inl (h : s.pass registry stack = .inl t) : ∃ file, s.children[s.childOffset]? = some file ∧
    (∃ header, readHeader (stack s.childOffset) file.handle = some header ∧ Mounted registry file header) ∧
    t = ⟨s.children ++ viewsOf (stack s.childOffset) file, s.childOffset + 1⟩ := by
  unfold Scan.pass at h
  split at h
  · cases h
  rename_i file hfile
  split at h
  · cases h
  · rename_i found hfound
    obtain ⟨header, hheader, hmounted, rfl⟩ := checkMbr_eq_some_iff.1 hfound
    exact ⟨file, hfile, ⟨header, hheader, hmounted⟩, (Sum.inl.inj h).symm⟩

lemma pass_of_mounted (hfile : s.children[s.childOffset]? = some file)
    (hheader : readHeader (stack s.childOffset) file.handle = some header) (hmounted : Mounted registry file header) :
    s.pass registry stack = .inl ⟨s.children ++ viewsOf (stack s.childOffset) file, s.childOffset + 1⟩ := by
  simp only [Scan.pass, hfile, checkMbr_eq_some_iff.2 ⟨header, hheader, hmounted, rfl⟩]

/-- A loop that ends goes on as long as there are files. -/
lemma pass_of_run {n : ℕ} (hrun : run (pass registry stack) n s = some (some t))
    (hfile : s.children[s.childOffset]? = some file) : ∃ u n', s.pass registry stack = .inl u ∧
      run (pass registry stack) n' u = some (some t) := by
  rcases n with _ | n
  · cases hrun
  rw [run_succ] at hrun
  rcases hpass : s.pass registry stack with u | r
  · rw [hpass] at hrun
    exact ⟨u, n, rfl, hrun⟩
  · rw [hpass] at hrun
    cases hrun
    simp only [Scan.pass, hfile] at hpass
    split at hpass <;> cases hpass

lemma viewsOf_append (i b : ℕ) (views : List DevFile) (h : ∀ f ∈ views, f.isView = true ∧ f.base = file.base) :
    (Scan.mk (s.children ++ views) i).viewsOf b = s.viewsOf b + if file.base = b then views.length else 0 := by
  simp only [Scan.viewsOf, countP_append]
  congr 1
  split_ifs with hb
  · refine countP_eq_length.2 fun f hf => ?_
    simp [(h f hf).1, (h f hf).2, hb]
  · refine countP_eq_zero.2 fun f hf => ?_
    simp [(h f hf).2, hb]

lemma viewsOf_le_run {n b : ℕ} (h : run (pass registry stack) n s = some (some t)) :
    s.viewsOf b ≤ t.viewsOf b := by
  refine run_of_invariant (I := fun u => s.viewsOf b ≤ u.viewsOf b)
    (Q := fun r => ∀ u, r = some u → s.viewsOf b ≤ u.viewsOf b) (fun u v hu huv => ?_) (fun u r hu hr => ?_)
    n s (some t) le_rfl h t rfl
  · obtain ⟨file, -, -, rfl⟩ := pass_inl huv
    rw [viewsOf_append _ b _ fun _ => mem_viewsOf]
    exact hu.trans (Nat.le_add_right _ _)
  rintro v rfl
  unfold Scan.pass at hr
  split at hr
  · cases hr
    exact hu
  · split at hr <;> cases hr

section Devices

lemma length_devFiles : (devFiles devices).length = devices.length := length_mapIdx

lemma exists_devFile {i : ℕ} (hi : i < devices.length) : ∃ file, (devFiles devices)[i]? = some file :=
  ⟨_, getElem?_eq_getElem (length_devFiles.symm ▸ hi)⟩

lemma lt_of_devFile (hfile : (devFiles devices)[i]? = some file) : i < devices.length := by
  rw [← length_devFiles]
  exact (List.getElem?_eq_some_iff.1 hfile).1

lemma devFile (hfile : (devFiles devices)[i]? = some file) : file.base = i ∧ file.isView = false ∧
    ∀ m, ∃ header, readHeader m file.handle = some header := by
  rw [devFiles, getElem?_mapIdx] at hfile
  obtain ⟨d, -, rfl⟩ := map_eq_some_iff.1 hfile
  exact ⟨rfl, rfl, d.exists_readHeader⟩

/-- The scan when it has come to the place `k`, with the views for the own tables of the devices before. -/
def scanned (stack : ℕ → Words.Memory) (devices : List Device) (k : ℕ) : Scan :=
  ⟨devFiles devices ++ (((devFiles devices).mapIdx fun i file => viewsOf (stack i) file).take k).flatten, k⟩

lemma scanned_zero : scanned stack devices 0 = start devices := by simp [scanned, start]

lemma scanned_of_le {k : ℕ} (h : devices.length ≤ k) :
    scanned stack devices k = ⟨devFiles devices ++ ownViews stack devices, k⟩ := by
  rw [scanned, take_of_length_le, ownViews]
  rwa [length_mapIdx, length_devFiles]

lemma scanned_succ {k : ℕ} (hfile : (devFiles devices)[k]? = some file) : scanned stack devices (k + 1) =
    ⟨(scanned stack devices k).children ++ viewsOf (stack k) file, k + 1⟩ := by
  rw [scanned, scanned, take_add_one, getElem?_mapIdx, hfile]
  simp

lemma children_scanned {k i : ℕ} (hfile : (devFiles devices)[i]? = some file) :
    (scanned stack devices k).children[i]? = some file := by
  rw [scanned, getElem?_append_left (List.getElem?_eq_some_iff.1 hfile).1, hfile]

lemma viewsOf_scanned (stack : ℕ → Words.Memory) {b : ℕ} (hfile : (devFiles devices)[b]? = some file) : ∀ k ≤ devices.length,
    (scanned stack devices k).viewsOf b = if b < k then (viewsOf (stack b) file).length else 0
  | 0, _ => by
    rw [scanned_zero]
    refine countP_eq_zero.2 fun f hf => ?_
    obtain ⟨i, hi⟩ := mem_iff_getElem?.1 hf
    simp [(devFile hi).2.1]
  | k + 1, hk => by
    obtain ⟨g, hg⟩ := exists_devFile hk
    rw [scanned_succ hg, viewsOf_append _ b _ fun _ => mem_viewsOf, viewsOf_scanned stack hfile k (by omega),
      (devFile hg).1]
    rcases Nat.lt_trichotomy b k with h1 | rfl | h1
    · rw [if_pos h1, if_neg h1.ne', if_pos (Nat.lt_succ_of_lt h1), Nat.add_zero]
    · cases hfile.symm.trans hg
      rw [if_neg (Nat.lt_irrefl b), if_pos rfl, if_pos (Nat.lt_succ_self b), Nat.zero_add]
    · rw [if_neg h1.not_gt, if_neg h1.ne, if_neg (Nat.not_lt.2 h1)]

lemma children_scanned_view {j : ℕ} :
    (scanned stack devices (devices.length + j)).children[devices.length + j]? = (ownViews stack devices)[j]? := by
  rw [scanned_of_le (Nat.le_add_right _ _)]
  rw [getElem?_append_right (length_devFiles ▸ Nat.le_add_right _ _), length_devFiles, Nat.add_sub_cancel_left]

lemma base_lt_of_mem (hf : f ∈ ownViews stack devices) : f.base < devices.length := by
  obtain ⟨views, hviews, hf⟩ := mem_flatten.1 hf
  obtain ⟨i, hi, rfl⟩ := mem_mapIdx.1 hviews
  rw [(mem_viewsOf hf).2, (devFile (getElem?_eq_getElem hi)).1]
  exact length_devFiles ▸ hi

lemma pass_view {j : ℕ} (hfile : (ownViews stack devices)[j]? = some file)
    (hheader : readHeader (stack (devices.length + j)) file.handle = some header) (hplain : partitions header = []) :
    (scanned stack devices (devices.length + j)).pass registry stack =
      .inl (scanned stack devices (devices.length + j + 1)) := by
  have hviews : viewsOf (stack (devices.length + j)) file = [] := by
    rw [viewsOf, hheader, Option.elim_some, hplain, map_nil]
  refine (pass_of_mounted (children_scanned_view.trans hfile) hheader fun e he => ?_).trans ?_
  · rw [hplain] at he
    cases he
  · change Sum.inl (mk (_ ++ viewsOf (stack (devices.length + j)) file) _) = _
    rw [hviews, append_nil, scanned_of_le (Nat.le_add_right _ _), scanned_of_le (by omega)]

variable {last : Scan}

/-- A loop that ends has been at each device. -/
lemma run_devices {n : ℕ} (hrun : run (pass registry stack) n (start devices) = some (some last)) :
    ∀ k ≤ devices.length, (∃ n, run (pass registry stack) n (scanned stack devices k) = some (some last)) ∧
      ∀ i < k, ∀ file header, (devFiles devices)[i]? = some file → readHeader (stack i) file.handle = some header →
        Mounted registry file header
  | 0, _ => ⟨⟨n, scanned_zero ▸ hrun⟩, fun i hi => absurd hi (Nat.not_lt_zero i)⟩
  | k + 1, hk => by
    obtain ⟨⟨n, hn⟩, hmounted⟩ := run_devices hrun k (by omega)
    obtain ⟨file, hfile⟩ := exists_devFile hk
    obtain ⟨u, n', hpass, hn'⟩ := pass_of_run hn (children_scanned hfile)
    obtain ⟨file', hfile', ⟨header, hheader, hm⟩, rfl⟩ := pass_inl hpass
    cases hfile'.symm.trans (children_scanned hfile)
    refine ⟨⟨n', by rw [scanned_succ hfile]; exact hn'⟩, fun i hi g header' hg hheader' => ?_⟩
    rcases Nat.lt_succ_iff_lt_or_eq.1 hi with hi | rfl
    · exact hmounted i hi g header' hg hheader'
    · cases hg.symm.trans hfile
      cases hheader'.symm.trans hheader
      exact hm

/-- A loop that ends with no more views than the devices have partitions has found none in a view. -/
lemma run_views {n : ℕ} (hrun : run (Scan.pass registry stack) n (scanned stack devices devices.length) = some (some last))
    (hle : ∀ base file, (devFiles devices)[base]? = some file → last.viewsOf base ≤ (viewsOf (stack base) file).length) :
    ∀ k ≤ (ownViews stack devices).length,
      (∃ n, run (Scan.pass registry stack) n (scanned stack devices (devices.length + k)) = some (some last)) ∧
      ∀ j < k, ∀ file, (ownViews stack devices)[j]? = some file →
        ∃ header, readHeader (stack (devices.length + j)) file.handle = some header ∧ partitions header = []
  | 0, _ => ⟨⟨n, hrun⟩, fun j hj => absurd hj (Nat.not_lt_zero j)⟩
  | k + 1, hk => by
    obtain ⟨⟨n, hn⟩, hplain⟩ := run_views hrun hle k (by omega)
    have hview := getElem?_eq_getElem (show k < (ownViews stack devices).length from hk)
    generalize (ownViews stack devices)[k] = view at hview
    obtain ⟨u, n', hpass, hn'⟩ := pass_of_run hn (children_scanned_view.trans hview)
    obtain ⟨file, hfile, ⟨header, hheader, -⟩, hu⟩ := pass_inl hpass
    obtain rfl := some.inj (hfile.symm.trans (children_scanned_view.trans hview))
    change readHeader (stack (devices.length + k)) file.handle = some header at hheader
    have hnone : partitions header = [] := by
      have hbase := base_lt_of_mem (mem_of_getElem? hview)
      obtain ⟨g, hg⟩ := exists_devFile hbase
      have hcount := viewsOf_scanned stack hg _ le_rfl
      rw [if_pos hbase, scanned_of_le le_rfl] at hcount
      have hmore := viewsOf_le_run (b := file.base) hn'
      rw [hu, viewsOf_append _ _ _ fun _ => mem_viewsOf, if_pos rfl, scanned_of_le (Nat.le_add_right _ _)] at hmore
      change (Scan.mk _ devices.length).viewsOf _ + (viewsOf (stack (devices.length + k)) file).length ≤ _ at hmore
      have hlast := hle _ _ hg
      have hlength : (viewsOf (stack (devices.length + k)) file).length = 0 := by omega
      rwa [viewsOf, hheader, Option.elim_some, length_map, List.length_eq_zero_iff] at hlength
    refine ⟨⟨n', ?_⟩, fun j hj g hg => ?_⟩
    · rwa [← Nat.add_assoc, ← Sum.inl.inj (hpass.symm.trans (pass_view hview hheader hnone))]
    · rcases Nat.lt_succ_iff_lt_or_eq.1 hj with hj | rfl
      · exact hplain j hj g hg
      · cases hg.symm.trans hview
        exact ⟨header, hheader, hnone⟩

lemma plain_of_discovers (h : Discovers registry stack devices) : Plain registry stack devices := by
  obtain ⟨n, last, hrun, hle⟩ := h
  obtain ⟨⟨n', hrun'⟩, hmounted⟩ := run_devices hrun _ le_rfl
  obtain ⟨-, hplain⟩ := run_views hrun' hle _ le_rfl
  refine ⟨fun i file header hfile => ?_, fun j file hfile => ?_⟩
  · exact hmounted i (lt_of_devFile hfile) file header hfile
  · exact hplain j (List.getElem?_eq_some_iff.1 hfile).1 file hfile

/-- The scan goes on to the end of the views for the devices' own tables. -/
lemma pass_scanned (h : Plain registry stack devices) {k total : ℕ}
    (htotal : total = devices.length + (ownViews stack devices).length) (hk : k ≤ total) :
    k < total ∧ (scanned stack devices k).pass registry stack = .inl (scanned stack devices (k + 1)) ∨
      k = total ∧ (scanned stack devices k).pass registry stack = .inr (some (scanned stack devices k)) := by
  rcases Nat.lt_or_ge k devices.length with hlt | hge
  · obtain ⟨file, hfile⟩ := exists_devFile hlt
    obtain ⟨header, hheader⟩ := (devFile hfile).2.2 (stack k)
    have hpass := pass_of_mounted (s := scanned stack devices k) (children_scanned hfile) hheader (h.mounted k file header hfile hheader)
    exact .inl ⟨by omega, hpass.trans (congrArg Sum.inl (scanned_succ hfile).symm)⟩
  · obtain ⟨j, rfl⟩ := Nat.exists_eq_add_of_le hge
    rcases Nat.lt_or_ge j (ownViews stack devices).length with hlt | hend
    · have hview := getElem?_eq_getElem hlt
      obtain ⟨header, hheader, hnone⟩ := h.plain j _ hview
      exact .inl ⟨by omega, pass_view hview hheader hnone⟩
    refine .inr ⟨by omega, ?_⟩
    have hnone : (scanned stack devices (devices.length + j)).children[devices.length + j]? = none := by
      rw [children_scanned_view, getElem?_eq_none hend]
    unfold Scan.pass
    split
    · rfl
    · rename_i child hchild
      cases hnone.symm.trans hchild

lemma discovers_of_plain (h : Plain registry stack devices) : Discovers registry stack devices := by
  obtain ⟨total, htotal⟩ : ∃ total, total = devices.length + (ownViews stack devices).length := ⟨_, rfl⟩
  obtain ⟨hall, hex⟩ := run_of_variant
    (I := fun s => ∃ k ≤ total, s = scanned stack devices k) (Q := fun r => r = some (scanned stack devices total))
    (fun s => total - s.childOffset)
    (by
      rintro _ ⟨k, hk, rfl⟩
      rcases pass_scanned h htotal hk with ⟨hlt, hpass⟩ | ⟨rfl, hpass⟩
      · exact .inl ⟨_, hpass, ⟨k + 1, hlt, rfl⟩, Nat.sub_succ_lt_self _ _ hlt⟩
      · exact .inr ⟨_, hpass, rfl⟩)
    (total + 1) (start devices) ⟨0, Nat.zero_le _, scanned_zero.symm⟩
  obtain ⟨r, hr⟩ := hex (Nat.lt_succ_self _)
  obtain rfl := hall r hr
  refine ⟨_, _, hr, fun base file hfile => ?_⟩
  have hcount := viewsOf_scanned stack hfile _ le_rfl
  rw [if_pos (lt_of_devFile hfile), scanned_of_le le_rfl] at hcount
  rw [scanned_of_le (by omega)]
  exact hcount.le

/-- The loop ends with at most one view for each partition of the tables of the devices if and only if file
systems can be made of these partitions and none of them has a partition itself. -/
theorem discovers_iff_plain (registry : Registry) (stack : ℕ → Words.Memory) (devices : List Device) :
    Discovers registry stack devices ↔ Plain registry stack devices :=
  ⟨plain_of_discovers, discovers_of_plain⟩

end Devices

/-- An active entry for the 256 sectors from the first on. -/
def selfSector (i : ℕ) : UInt8 :=
  if i = 0x1BE then 0x80 else if i = 0x1C2 then 0xCD else if i = 0x1CB then 1
  else if i = 0x1FE then 0x55 else if i = 0x1FF then 0xAA else 0

/-- A disk of 64 sectors. A read that starts behind them is an error, for which the driver returns 0. -/
def selfDisk : Device where
  handle :=
    { write := fun _ _ _ s => some (s, 0)
      read := fun size pos s => if pos < 0x8000
        then some (s, (List.range size.toNat).map fun i => selfSector (pos.toNat + i), size.toInt32)
        else some (s, [], 0)
      getSize := fun _ => some 0x8000
      nextChild := fun s => some (s, none)
      close := id }
  reads size pos := by
    dsimp only
    split_ifs
    · exact ⟨_, _, rfl, by simp⟩
    · exact ⟨[], 0, rfl, Nat.zero_le _⟩

/-- The table is where the file starts, and where a volume descriptor is looked for there is nothing. -/
structure ShowsSelf (f : DevFile) : Prop where
  table : f.handle.read 512 0 () = some ((), (List.range 512).map selfSector, 512)
  descriptor : f.handle.read 2048 0x8000 () = some ((), [], 0)

lemma entry_congr (h : ∀ i, i.toNat < 512 → header i = header' i) {i : ℕ}
    (hi : i < 4) : entry header i = entry header' i := by
  obtain ⟨p, hp⟩ : ∃ p, p = 0x1BE + 16 * UInt32.ofNat i := ⟨_, rfl⟩
  have hbyte : ∀ k : UInt32, k.toNat < 16 → header (p + k) = header' (p + k) := by
    intro k hk
    refine h _ ?_
    rw [hp]
    simp only [UInt32.toNat_add, UInt32.toNat_mul, UInt32.toNat_ofNat', UInt32.reduceToNat]
    omega
  have hfirst : header p = header' p := by
    rw [← UInt32.add_zero p]
    exact hbyte 0 (by decide)
  simp only [entry, Words.load, ← hp, UInt32.add_assoc, UInt32.reduceAdd]
  rw [hfirst, hbyte 4 (by decide), hbyte 8 (by decide), hbyte 9 (by decide), hbyte 10 (by decide),
    hbyte 11 (by decide), hbyte 12 (by decide), hbyte 13 (by decide), hbyte 14 (by decide), hbyte 15 (by decide)]

lemma partitions_congr (h : ∀ i, i.toNat < 512 → header i = header' i) : partitions header = partitions header' := by
  have hentry : (List.range 4).map (entry header) = (List.range 4).map (entry header') :=
    map_congr_left fun i hi => entry_congr h (mem_range.1 hi)
  rw [partitions, partitions, h _ (by decide), h _ (by decide), h 0x1FE (by decide), h 0x1FF (by decide), hentry]

lemma partitions_selfSector : partitions (fun i => selfSector i.toNat) = [⟨0x80, 0xCD, 0, 0x100⟩] := by rfl

lemma ShowsSelf.view (hf : ShowsSelf f) : ShowsSelf (f.view 0 0x20000) := ⟨hf.table, hf.descriptor⟩

lemma readHeader_showsSelf (hf : ShowsSelf f) (m : Words.Memory) :
    ∃ header, readHeader m f.handle = some header ∧ partitions header = [⟨0x80, 0xCD, 0, 0x100⟩] := by
  have hbytes : ∀ i : UInt32, i.toNat < 512 →
      ((List.range 512).map selfSector).getD i.toNat (m i) = selfSector i.toNat := by
    intro i hi
    simp [getElem?_range hi]
  exact ⟨_, readHeader_of_read hf.table (by simp), (partitions_congr hbytes).trans partitions_selfSector⟩

lemma viewsOf_showsSelf (hf : ShowsSelf f) (m : Words.Memory) : viewsOf m f = [f.view 0 0x20000] := by
  obtain ⟨header, hheader, hpartitions⟩ := readHeader_showsSelf hf m
  rw [viewsOf, hheader, Option.elim_some, hpartitions]
  rfl

/-- The callback of the iso9660 module reads a volume descriptor first, and returns when there is none. -/
def EndsEarly (registry : Registry) : Prop := ∀ root offset length,
  root.handle.read 2048 (0x8000 - offset) () = some ((), [], 0) →
    (registry.createFilesystem iso9660 root offset length).isSome

lemma run_selfDisk (hmount : EndsEarly registry) (stack : ℕ → Words.Memory) (n : ℕ) :
    run (pass registry stack) n (start [selfDisk]) = none := by
  refine run_eq_none (I := fun s => (∀ f ∈ s.children, ShowsSelf f) ∧ s.childOffset < s.children.length) ?_ n _ ?_
  · rintro s ⟨hself, hlt⟩
    have hfile := getElem?_eq_getElem hlt
    have hf := hself _ (mem_of_getElem? hfile)
    obtain ⟨header, hheader, hpartitions⟩ := readHeader_showsSelf hf (stack s.childOffset)
    refine ⟨_, pass_of_mounted hfile hheader fun e he => hmount _ _ _ ?_, ?_⟩
    · rw [hpartitions] at he
      obtain rfl := mem_singleton.1 he
      exact hf.view.descriptor
    rw [viewsOf_showsSelf hf]
    refine ⟨fun f hmem => ?_, ?_⟩
    · rcases mem_append.1 hmem with hold | hnew
      · exact hself f hold
      · rw [mem_singleton.1 hnew]
        exact hf.view
    · simp only [length_append, length_singleton]
      omega
  · refine ⟨fun f hf => ?_, by simp [start, devFiles]⟩
    obtain rfl := mem_singleton.1 hf
    exact ⟨by simp [selfDisk], by simp [selfDisk]⟩

/-- The views of a partition that starts at its own table have no end. -/
theorem partitions_without_end :
    (∀ registry, EndsEarly registry → ∀ stack n, run (pass registry stack) n (start [selfDisk]) = none) ∧
    ∀ registry stack, ¬ Discovers registry stack [selfDisk] := by
  refine ⟨fun registry => run_selfDisk, fun registry stack h => ?_⟩
  have hself : ShowsSelf ⟨0, false, selfDisk.handle⟩ := ⟨by simp [selfDisk], by simp [selfDisk]⟩
  have hview : (ownViews stack [selfDisk])[0]? = some (DevFile.view ⟨0, false, selfDisk.handle⟩ 0 0x20000) := by
    simp [ownViews, devFiles, viewsOf_showsSelf hself]
  obtain ⟨header, hheader, hnone⟩ := (plain_of_discovers h).plain 0 _ hview
  obtain ⟨header', hheader', hpartitions⟩ := readHeader_showsSelf hself.view (stack 1)
  cases hheader.symm.trans hheader'
  cases hpartitions.symm.trans hnone

end OlliOS.Mbr
