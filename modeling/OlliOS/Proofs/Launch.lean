import OlliOS.Launch
import OlliOS.Proofs.Sbrk

/-!
# What a program is started with

The strings are copied one behind the other, and the arrays are written without a gap. Nothing compares
their lengths with the sizes of the arrays.
-/

namespace OlliOS.Launch

open List Option Loop

section Copy

variable {strs : List CStr} {str : CStr} {i j n : ℕ} {a : Arrays} {s : Copying} {p : Pointer}

lemma copiedLength_append (strs strs' : List CStr) :
    copiedLength (strs ++ strs') = copiedLength strs + copiedLength strs' := by
  simp [copiedLength]

lemma copiedLength_take_le (strs : List CStr) (i : ℕ) : copiedLength (strs.take i) ≤ copiedLength strs := by
  conv_rhs => rw [← take_append_drop i strs, copiedLength_append]
  exact Nat.le_add_right _ _

lemma copiedLength_take_succ (h : strs[i]? = some str) :
    copiedLength (strs.take (i + 1)) = copiedLength (strs.take i) + (str.length + 1) := by
  rw [take_add_one, h, copiedLength_append]
  rfl

lemma copiedLength_take_lt (h : strs[i]? = some str) (hij : i < j) :
    copiedLength (strs.take i) + str.length + 1 ≤ copiedLength (strs.take j) := by
  have hle := copiedLength_take_le (strs.take j) (i + 1)
  rw [take_take, Nat.min_eq_left hij, copiedLength_take_succ h] at hle
  omega

structure Copied (strs : List CStr) (s : Copying) : Prop where
  i : s.i = strs.length
  dc : s.dc = copiedLength strs
  pointersWritten : s.arrays.pointersWritten = List.range strs.length
  dataWritten : s.arrays.dataWritten = List.range (copiedLength strs)
  copy : ∀ i str, strs[i]? = some str → s.arrays.HasCopy i (copiedLength (strs.take i)) str

lemma Arrays.HasCopy.point {offset k : ℕ} (h : a.HasCopy i offset str) (hne : i ≠ k) :
    (a.point k p).HasCopy i offset str :=
  ⟨(if_neg hne).trans h.pointer, h.bytes, h.terminated⟩

lemma Arrays.HasCopy.strcpy {offset dc : ℕ} {new : CStr} (h : a.HasCopy i offset str)
    (hdc : offset + str.length < dc) : (a.strcpy dc new).HasCopy i offset str := by
  refine ⟨h.pointer, fun j hj => ?_, ?_⟩
  · exact (if_neg (by omega)).trans (h.bytes j hj)
  · exact (if_neg (by omega)).trans h.terminated

lemma hasCopy_strcpy (a : Arrays) (i dc : ℕ) (str : CStr) :
    ((a.point i (.into dc)).strcpy dc str).HasCopy i dc str := by
  refine ⟨if_pos rfl, fun j hj => ?_, ?_⟩
  · refine (if_pos (by omega)).trans ?_
    rw [Nat.add_sub_cancel_left]
  · refine (if_pos (by omega)).trans ?_
    rw [Nat.add_sub_cancel_left, getD_eq_getElem?_getD, getElem?_eq_none (Nat.le_refl _)]
    rfl

lemma Copied.pass (h : Copied strs s) (str : CStr) : Copied (strs ++ [str]) (s.pass str) := by
  have hlen : copiedLength (strs ++ [str]) = copiedLength strs + (str.length + 1) :=
    copiedLength_append strs [str]
  refine ⟨?_, ?_, ?_, ?_, fun i str' hi => ?_⟩
  · rw [Copying.pass, h.i, length_append]
    rfl
  · rw [Copying.pass, h.dc, hlen]
  · rw [length_append, length_singleton, range_succ, ← h.pointersWritten, ← h.i]
    rfl
  · rw [hlen, range_add, ← h.dataWritten, ← range'_eq_map_range, ← h.dc]
    rfl
  · rcases Nat.lt_or_ge i strs.length with hlt | hge
    · rw [getElem?_append_left hlt] at hi
      have hne : i ≠ s.i := fun hi' => Nat.lt_irrefl _ (hi' ▸ h.i ▸ hlt)
      have hend := copiedLength_take_lt hi hlt
      rw [take_length, ← h.dc] at hend
      rw [take_append_of_le_length hlt.le]
      exact ((h.copy i str' hi).point hne).strcpy (by omega)
    · rw [getElem?_append_right hge] at hi
      obtain ⟨hzero, rfl⟩ : i - strs.length = 0 ∧ str = str' := by
        rw [getElem?_singleton] at hi
        split_ifs at hi with hz
        exact ⟨hz, some.inj hi⟩
      obtain rfl : i = strs.length := by omega
      rw [take_left, ← h.dc, ← h.i]
      exact hasCopy_strcpy s.arrays s.i s.dc str

lemma copied_copyStrings (stack : ℕ → UInt8) (strs : List CStr) : Copied strs (copyStrings stack strs) := by
  induction strs using List.reverseRecOn with
  | nil => exact ⟨rfl, rfl, rfl, rfl, fun i str h => absurd h (by simp)⟩
  | append_singleton strs str ih =>
    rw [copyStrings, foldl_append]
    exact ih.pass str

lemma Copied.hasCopies (h : Copied strs s) : s.arrays.HasCopies strs :=
  ⟨fun i => copiedLength (strs.take i), h.copy, fun _ _ _ _ hij hi _ => copiedLength_take_lt hi hij⟩

lemma Arrays.HasCopies.point (h : a.HasCopies strs) (hn : strs.length ≤ n) : (a.point n p).HasCopies strs := by
  obtain ⟨offset, hcopy, happart⟩ := h
  refine ⟨offset, fun i str hi => (hcopy i str hi).point ?_, happart⟩
  have hlt := (List.getElem?_eq_some_iff.1 hi).1
  omega

lemma forall_mem_range_lt {m : ℕ} : (∀ i ∈ List.range n, i < m) ↔ n ≤ m := by
  constructor
  · intro h
    by_contra hlt
    exact Nat.lt_irrefl m (h m (mem_range.2 (by omega)))
  · intro h i hi
    exact Nat.lt_of_lt_of_le (mem_range.1 hi) h

lemma Copied.inside_iff (h : Copied strs s) :
    s.arrays.Inside ↔ strs.length ≤ maxArgs ∧ copiedLength strs ≤ maxArgsLength := by
  rw [← forall_mem_range_lt, ← forall_mem_range_lt, ← h.pointersWritten, ← h.dataWritten]
  exact ⟨fun hin => ⟨hin.pointers, hin.data⟩, fun hin => ⟨hin.1, hin.2⟩⟩

lemma Copied.inside_null_iff (h : Copied strs s) :
    (s.arrays.point s.i .null).Inside ↔ strs.length + 1 ≤ maxArgs ∧ copiedLength strs ≤ maxArgsLength := by
  rw [← forall_mem_range_lt, ← forall_mem_range_lt, range_succ, ← h.dataWritten, ← h.pointersWritten, ← h.i]
  exact ⟨fun hin => ⟨hin.pointers, hin.data⟩, fun hin => ⟨hin.1, hin.2⟩⟩

lemma handsOver_iff (entry : UInt32) (stack : ℕ → UInt8) (file : ℕ) (pathname : CStr) (argv envp : List CStr) :
    HandsOver pathname argv envp (handOver entry stack ⟨file, pathname :: argv, envp⟩) ↔
      Fits pathname argv envp := by
  have hargs := copied_copyStrings stack (pathname :: argv)
  have henv := copied_copyStrings stack envp
  constructor
  · intro h
    obtain ⟨ha, hal⟩ := hargs.inside_iff.1 h.argvInside
    obtain ⟨he, hel⟩ := henv.inside_null_iff.1 h.envvInside
    exact ⟨(Nat.add_comm 1 _).trans_le ha, hal, he, hel⟩
  · intro h
    refine ⟨(Nat.add_comm 1 _).symm, hargs.hasCopies, henv.hasCopies.point henv.i.ge, ?_, ?_, ?_⟩
    · exact if_pos henv.i.symm
    · exact hargs.inside_iff.2 ⟨(Nat.add_comm 1 _).ge.trans h.args, h.argsLength⟩
    · exact henv.inside_null_iff.2 ⟨h.environ, h.environLength⟩

end Copy

section Load

variable {σ : Type} {src : Source σ} {s : σ} {t : Loading σ} {result : Int32} {bytes : List UInt8} {state : σ}

lemma request_le {filesize total : UInt32} (h : total.toNat ≤ filesize.toNat) :
    (request filesize total).toNat + total.toNat ≤ filesize.toNat := by
  have hsub : (filesize - total).toNat = filesize.toNat - total.toNat :=
    UInt32.toNat_sub_of_le _ _ (UInt32.le_iff_toNat_le.2 h)
  unfold request
  split_ifs with hlt
  · omega
  · rw [UInt32.lt_iff_toNat_lt, hsub] at hlt
    change ¬ _ < 4096 at hlt
    show 4096 + _ ≤ _
    omega

lemma readPass_of_read {handle : FileHandle σ} {filesize : UInt32}
    (hread : handle.read (request filesize t.total) t.total t.state = some (state, bytes, result)) :
    readPass handle filesize t = if t.total + result.toUInt32 ≠ filesize
      then .inl ⟨state, t.total + result.toUInt32, t.writes ++ [(t.total, bytes)]⟩
      else .inr (some ⟨state, t.total + result.toUInt32, t.writes ++ [(t.total, bytes)]⟩) := by
  rw [readPass, hread]

structure Loaded (src : Source σ) (t : Loading σ) : Prop where
  total : t.total.toNat ≤ src.filesize.toNat
  inside : t.Inside src
  filled : ∀ b < t.total.toNat, ∃ w ∈ t.writes, w.1.toNat ≤ b ∧ b < w.1.toNat + w.2.length

lemma Loaded.read (h : Loaded src t)
    (hread : src.handle.read (src.request t.total) t.total t.state = some (state, bytes, result))
    (hpos : 0 < result.toInt) :
    Loaded src ⟨state, t.total + result.toUInt32, t.writes ++ [(t.total, bytes)]⟩ ∧
      t.total.toNat < (t.total + result.toUInt32).toNat := by
  obtain ⟨_, _, _, hread', hle, hlength⟩ := src.reads (src.request t.total) t.total t.state
  obtain ⟨rfl, rfl, rfl⟩ : state = _ ∧ bytes = _ ∧ result = _ := by simpa [hread] using hread'
  have hrequest : (src.request t.total).toNat + _ ≤ _ := request_le h.total
  have hsize := src.filesize.toNat_lt
  have hsum := Words.toNat_add_signed (a := t.total) (i := result) (by omega) (by omega)
  have hnext : (t.total + result.toUInt32).toNat = t.total.toNat + bytes.length := by omega
  refine ⟨⟨?_, fun w hw hne => ?_, fun b hb => ?_⟩, by omega⟩
  · show (t.total + result.toUInt32).toNat ≤ _
    omega
  · rcases mem_append.1 hw with hw | hw
    · exact h.inside w hw hne
    · obtain rfl := mem_singleton.1 hw
      show t.total.toNat + bytes.length ≤ _
      omega
  · rcases Nat.lt_or_ge b t.total.toNat with hold | hnew
    · obtain ⟨w, hw, hin⟩ := h.filled b hold
      exact ⟨w, mem_append_left _ hw, hin⟩
    · exact ⟨(t.total, bytes), by simp, hnew, hnext ▸ hb⟩

lemma Loaded.pass (h : Loaded src t) (hresults : src.Results s fun result => 0 < result.toInt) {n : ℕ}
    (hn : after src.pass n (.start s) = some t) :
    (∃ u, src.pass t = .inl u ∧ (Loaded src u ∧ ∃ n, after src.pass n (.start s) = some u) ∧
      src.filesize.toNat - u.total.toNat < src.filesize.toNat - t.total.toNat) ∨
    ∃ r, src.pass t = .inr r ∧ ∃ u, r = some u ∧ u.Inside src ∧ u.Complete src := by
  obtain ⟨state, bytes, result, hread, -⟩ := src.reads (src.request t.total) t.total t.state
  obtain ⟨hnext, hlt⟩ := h.read hread (hresults n t hn _ _ _ hread)
  have hpass : src.pass t = _ := readPass_of_read hread
  by_cases hend : t.total + result.toUInt32 = src.filesize
  · rw [if_neg (not_not.2 hend)] at hpass
    refine .inr ⟨_, hpass, _, rfl, hnext.inside, ?_⟩
    rw [Loading.Complete, ← hend]
    exact hnext.filled
  · rw [if_pos hend] at hpass
    have hle : (t.total + result.toUInt32).toNat ≤ src.filesize.toNat := hnext.total
    refine .inl ⟨_, hpass, ⟨hnext, n + 1, after_succ.2 ⟨t, hn, hpass⟩⟩, ?_⟩
    show src.filesize.toNat - (t.total + result.toUInt32).toNat < _
    omega

lemma loads_of_positive (h : src.Results s fun result => 0 < result.toInt) : src.Loads s := by
  have hstart : Loaded src (.start s) := ⟨Nat.zero_le _, fun w hw => absurd hw (by simp [Loading.start]), nofun⟩
  obtain ⟨hall, hex⟩ := run_of_variant
    (I := fun t => Loaded src t ∧ ∃ n, after src.pass n (.start s) = some t)
    (fun t => src.filesize.toNat - t.total.toNat) (fun _ ht => ht.1.pass h ht.2.choose_spec)
    (src.filesize.toNat + 1) (.start s) ⟨hstart, 0, rfl⟩
  obtain ⟨r, hr⟩ := hex (by omega)
  obtain ⟨t, rfl, ht⟩ := hall r hr
  exact ⟨_, t, hr, ht⟩

def failing (result : Int32) (h : result.toInt ≤ 0) : Source Unit where
  handle :=
    { write := fun _ _ _ s => some (s, -1)
      read := fun _ _ s => some (s, [], result)
      getSize := fun _ => some 1
      nextChild := fun s => some (s, none)
      close := id }
  filesize := 1
  nonempty := by decide
  getSize _ := rfl
  reads size pos s := ⟨s, [], result, rfl, by omega, (Int.toNat_of_nonpos h).symm⟩

lemma failing_not_loads (h : result.toInt ≤ 0) : ¬ (failing result h).Loads () := by
  rintro ⟨n, t, hrun, -, hcomplete⟩
  have hpass : ∀ t, (failing result h).pass t = _ := fun t => readPass_of_read rfl
  have hempty : ∀ t', some t = some t' → ∀ w ∈ t'.writes, w.2 = [] := by
    refine run_of_invariant (I := fun t => ∀ w ∈ t.writes, w.2 = [])
      (Q := fun r => ∀ t', r = some t' → ∀ w ∈ t'.writes, w.2 = []) (fun u v hu hv => ?_) (fun u r hu hr => ?_)
      n _ _ (by simp [Loading.start]) hrun
    · rw [hpass] at hv
      split_ifs at hv
      cases hv
      simpa [or_imp, forall_and] using hu
    · rw [hpass] at hr
      split_ifs at hr
      cases hr
      simpa [or_imp, forall_and] using hu
  obtain ⟨w, hw, hlow, hhigh⟩ := hcomplete 0 Nat.one_pos
  rw [hempty t rfl w hw] at hhigh
  exact absurd hhigh (by simpa using hlow)

/-- Results out of `ok` are enough for every file to be in the buffer when the loop ends, and for the loop
to end, if and only if 0 and the errors are not among them. -/
theorem loads_iff_positive (ok : Int32 → Prop) :
    (∀ (σ : Type) (src : Source σ) (s : σ), src.Results s ok → src.Loads s) ↔
      ∀ result, ok result → 0 < result.toInt := by
  constructor
  · intro h result hok
    by_contra hpos
    refine failing_not_loads (show result.toInt ≤ 0 by omega) (h Unit _ () fun _ _ _ _ _ _ hread => ?_)
    obtain ⟨-, rfl⟩ : _ = [] ∧ result = _ := by simpa [failing] using hread
    exact hok
  · intro hpos σ src s hresults
    exact loads_of_positive fun n t ht state bytes result hread => hpos result (hresults n t ht _ _ _ hread)

/-- A device that has an error returns 0, and the loop asks it again. -/
theorem unreadable_file_read_forever : (∀ n, run (failing 0 (Int.le_refl 0)).pass n (.start ()) = none) ∧
      ¬ (failing 0 (Int.le_refl 0)).Loads () := by
  refine ⟨fun n => ?_, failing_not_loads _⟩
  refine run_eq_none (I := fun t => t.total = 0) (fun t ht => ⟨_, if_pos ?_, ?_⟩) n _ rfl
  · show t.total + 0 ≠ 1
    rw [ht]
    decide
  · rw [ht]
    rfl

end Load

section Run

variable {σ : Type}

lemma loadFileAndRun_eq_some {k : Kernel σ} {n : ℕ} {p : Program} {filesize : UInt32} {result : Option Jump}
    (hsize : (k.opens p.file).getSize k.state = some filesize) (h : loadFileAndRun k n p = some result) :
    filesize = 0 ∧ result = none ∨ filesize ≠ 0 ∧ ∃ entry, result = some (handOver entry k.stack p) := by
  simp only [loadFileAndRun, hsize, bind_eq_bind, bind_some] at h
  split_ifs at h with hzero
  · exact .inl ⟨hzero, (some.inj h).symm⟩
  · obtain ⟨file, -, h⟩ := bind_eq_some_iff.1 h
    obtain ⟨_, -, h⟩ := bind_eq_some_iff.1 h
    obtain ⟨entry, -, h⟩ := bind_eq_some_iff.1 h
    exact .inr ⟨hzero, entry.getD 0, (some.inj h).symm⟩

lemma loadFileAndRun_of {k : Kernel σ} {n : ℕ} {p : Program} {filesize : UInt32} {file : Loading σ}
    {program : OlliOS.Program} {entry : Option UInt32}
    (hsize : (k.opens p.file).getSize k.state = some filesize) (hzero : filesize ≠ 0)
    (hloop : run (readPass (k.opens p.file) filesize) n (.start k.state) = some (some file))
    (hload : OlliOS.Program.load (file.memory k.heap k.buffer) k.buffer k.machine = some program)
    (hentry : Elf.getNamedValue k.buffer (file.memory k.heap k.buffer) (chars ['_', 's', 't', 'a', 'r', 't']) =
      some entry) :
    loadFileAndRun k n p = some (some (handOver (entry.getD 0) k.stack p)) := by
  simp [loadFileAndRun, hsize, hzero, hloop, hload, hentry]

/-- The thread that `execve` makes starts the program unless its file has the size 0. The program gets the
strings of the caller in arrays that were not overrun if and only if they fit. -/
theorem handsOver_iff_fits (v : Vfs) (k : Kernel σ) (n : ℕ) (workingDirectory pathname : CStr)
    (argv : List CStr) (envp : Option (List CStr)) {p : Program} {filesize : UInt32} {result : Option Jump}
    (h : execve v workingDirectory (some pathname) (some argv) envp = some p)
    (hsize : (k.opens p.file).getSize k.state = some filesize)
    (hrun : loadFileAndRun k n p = some result) :
    (result = none ↔ filesize = 0) ∧
      ((∀ jump, result = some jump → HandsOver pathname argv (envp.getD []) jump) ↔
        filesize = 0 ∨ Fits pathname argv (envp.getD [])) := by
  obtain ⟨file, -, rfl⟩ := map_eq_some_iff.1 h
  rcases loadFileAndRun_eq_some hsize hrun with ⟨hzero, rfl⟩ | ⟨hzero, entry, rfl⟩
  · exact ⟨iff_of_true rfl hzero, iff_of_true nofun (.inl hzero)⟩
  · refine ⟨iff_of_false nofun hzero, ?_⟩
    rw [or_iff_right hzero, ← handsOver_iff entry k.stack file]
    exact ⟨fun hall => hall _ rfl, fun hover _ hjump => some.inj hjump ▸ hover⟩

/-- A file with a segment of half a page at `0x400000`, and there the symbol `_start`. -/
def startFile : List UInt8 :=
  replicate 28 0 ++ [52, 0, 0, 0, 84, 0, 0, 0] ++ replicate 8 0 ++ [1, 0, 0, 0, 2, 0, 0, 0] ++
    [1, 0, 0, 0, 0, 0, 0, 0, 0, 0, 0x40, 0, 0, 0, 0, 0, 0, 0, 0, 0, 0, 8, 0, 0] ++
    replicate 12 0 ++ [2, 0, 0, 0] ++ replicate 8 0 ++ [164, 0, 0, 0, 16, 0, 0, 0, 1, 0, 0, 0] ++
    replicate 8 0 ++ [16, 0, 0, 0] ++ replicate 16 0 ++ [180, 0, 0, 0] ++ replicate 24 0 ++
    [0, 0, 0x40, 0] ++ replicate 8 0 ++ chars ['_', 's', 't', 'a', 'r', 't'] ++ [0]

def startKernel : Kernel VirtualFile where
  opens _ := .virtualFile (fun _ _ => 0xCC) .here
  state := ⟨[fun i => startFile.getD i 0xCC], 187⟩
  heap _ := 0xCC
  buffer := 0xD0000018
  machine := Elf.bareMachine
  stack _ := 0xCC

lemma startKernel_read (f : ℕ) :
    (startKernel.opens f).read 187 0 startKernel.state = some (startKernel.state, startFile, 187) := by
  have hbytes : startKernel.state.read 187 0 = some startFile := by decide +kernel
  have hlength : (UInt32.ofNat startFile.length).toInt32 = 187 := by decide +kernel
  rw [← hlength]
  exact (congrArg (fun bytes => bytes.bind fun bytes =>
    some (startKernel.state, bytes, (UInt32.ofNat bytes.length).toInt32)) hbytes :)

lemma startKernel_loop (f : ℕ) : run (readPass (startKernel.opens f) 187) 1 (.start startKernel.state) =
    some (some ⟨startKernel.state, 187, [(0, startFile)]⟩) := by
  have hrequest : request 187 0 = 187 := by decide
  have hread := startKernel_read f
  rw [← hrequest] at hread
  have hpass := readPass_of_read (t := .start startKernel.state) hread
  rw [if_neg (by decide)] at hpass
  rw [run, hpass]
  rfl

def startMemory : Words.Memory := put (fun _ => 0xCC) 0xD0000018 startFile

lemma segments_startMemory : Elf.segments startMemory 0xD0000018 = [pageSegment 0x800] := by decide +kernel

lemma entry_startMemory : Elf.getNamedValue 0xD0000018 startMemory (chars ['_', 's', 't', 'a', 'r', 't']) =
    some (some 0x400000) := by decide +kernel

lemma startKernel_run (p : Program) :
    loadFileAndRun startKernel 1 p = some (some (handOver 0x400000 (fun _ => 0xCC) p)) := by
  obtain ⟨s, hload, -⟩ := load_pageFile (by decide) (by decide) segments_startMemory
  exact loadFileAndRun_of (show _ = some 187 from rfl) (by decide) (startKernel_loop _) hload entry_startMemory

def startFiles : Vfs := (Vfs.init.create Vfs.root [0x61] 0).1

lemma execve_start (argv : List CStr) (envp : Option (List CStr)) :
    execve startFiles [] (some [slash, 0x61]) (some argv) envp = some ⟨3, [slash, 0x61] :: argv, envp.getD []⟩ := by
  have hget : startFiles.get Vfs.root [slash, 0x61] = some 3 := by decide +kernel
  simp [execve, Vfs.executedFile, Vfs.fileGet, hget]

theorem handsOver_of_fits : ∃ p jump,
    execve startFiles [] (some [slash, 0x61]) (some [[0x2D], []]) (some [[0x41, 0x3D]]) = some p ∧
    loadFileAndRun startKernel 1 p = some (some jump) ∧
    HandsOver [slash, 0x61] [[0x2D], []] [[0x41, 0x3D]] jump := by
  refine ⟨_, _, execve_start _ _, startKernel_run _, ?_⟩
  refine (handsOver_iff_fits startFiles startKernel 1 [] [slash, 0x61] [[0x2D], []] (some [[0x41, 0x3D]])
    (execve_start _ _) rfl (startKernel_run _)).2.2 (.inr ?_) _ rfl
  exact ⟨by decide, by decide, by decide, by decide⟩

/-- An argument of 2048 bytes. -/
theorem long_argument_overruns : ∃ p jump,
    execve startFiles [] (some [slash, 0x61]) (some [replicate 2048 0x61]) none = some p ∧
    loadFileAndRun startKernel 1 p = some (some jump) ∧
    ¬ HandsOver [slash, 0x61] [replicate 2048 0x61] [] jump := by
  refine ⟨_, _, execve_start _ _, startKernel_run _, fun h => ?_⟩
  have hlength := ((handsOver_iff ..).1 h).argsLength
  rw [copiedLength, map_cons, map_singleton, length_replicate, sum_cons] at hlength
  exact absurd hlength (by simp [maxArgsLength])

end Run

end OlliOS.Launch
