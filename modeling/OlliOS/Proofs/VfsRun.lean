import OlliOS.Proofs.Vfs
import OlliOS.VfsRun

/-!
# What is found stays found

No call removes a file, renames one or takes a child away, and a folder gets its new children behind the
others (`Grows`).
-/

namespace OlliOS

open Stepping List Option

structure File.Grows (f g : File) : Prop where
  name : g.name = f.name
  original : g.original = f.original
  children : f.children <+: g.children
  isFolder : g.isFolder = f.isFolder

namespace File.Grows

lemma refl (f : File) : f.Grows f := ⟨rfl, rfl, prefix_rfl, rfl⟩

lemma trans {f g h : File} (hfg : f.Grows g) (hgh : g.Grows h) : f.Grows h :=
  ⟨hgh.name.trans hfg.name, hgh.original.trans hfg.original, hfg.children.trans hgh.children,
    hgh.isFolder.trans hfg.isFolder⟩

lemma addChild (child : ℕ) (f : File) : f.Grows (f.addChild child) := by
  cases f
  all_goals exact ⟨rfl, rfl, by simp [File.addChild, File.children], rfl⟩

lemma setContent (content : VirtualFile) (f : File) : f.Grows (f.setContent content) := by
  cases f
  all_goals exact ⟨rfl, rfl, prefix_rfl, rfl⟩

end File.Grows

namespace Vfs

structure Grows (v w : Vfs) : Prop where
  length_le : v.files.length ≤ w.files.length
  file : ∀ (i : ℕ) (f : File), v.files[i]? = some f → ∃ g, w.files[i]? = some g ∧ f.Grows g

namespace Grows

variable {u v w : Vfs} {g : File → File} {i : ℕ}

lemma refl (v : Vfs) : v.Grows v := ⟨Nat.le_refl _, fun _ f hf => ⟨f, hf, .refl f⟩⟩

lemma trans (huv : u.Grows v) (hvw : v.Grows w) : u.Grows w := by
  refine ⟨Nat.le_trans huv.length_le hvw.length_le, fun i f hf => ?_⟩
  obtain ⟨g, hg, hfg⟩ := huv.file i f hf
  obtain ⟨k, hk, hgk⟩ := hvw.file i g hg
  exact ⟨k, hk, hfg.trans hgk⟩

lemma append {fs : List File} (h : w.files = v.files ++ fs) : v.Grows w := by
  refine ⟨by simp [h], fun i f hf => ⟨f, ?_, .refl f⟩⟩
  rw [h, getElem?_append_left (List.getElem?_eq_some_iff.1 hf).1, hf]

lemma modify (h : w.files = v.files.modify i g) (hg : ∀ f : File, f.Grows (g f)) : v.Grows w := by
  refine ⟨by simp [h], fun j f hf => ?_⟩
  rw [h, getElem?_modify, hf]
  by_cases hij : i = j
  · exact ⟨g f, by simp [hij], hg f⟩
  · exact ⟨f, by simp [hij], .refl f⟩

lemma modify_new (hv : u.Grows v) (hi : u.files.length ≤ i) (h : w.files = v.files.modify i g) : u.Grows w := by
  refine ⟨by simpa [h] using hv.length_le, fun j f hf => ?_⟩
  obtain ⟨f', hf', hgrow⟩ := hv.file j f hf
  have hj := (List.getElem?_eq_some_iff.1 hf).1
  refine ⟨f', ?_, hgrow⟩
  have hij : i ≠ j := by omega
  simp [h, hij, hf']

lemma addChild (v : Vfs) (i child : ℕ) (h : child < v.files.length) : v.Grows (v.addChild i child h) :=
  modify rfl (File.Grows.addChild child)

lemma setContent (v : Vfs) (i : ℕ) (content : VirtualFile) : v.Grows (v.setContent i content) :=
  modify rfl (File.Grows.setContent content)

lemma create (v : Vfs) (f : ℕ) (name : CStr) (flags : UInt32) : v.Grows (v.create f name flags).1 := by
  unfold Vfs.create
  split_ifs with hfolder hdir
  · exact (append (files_newSubfolder v _ name (lt_of_isFolder hfolder))).trans (modify rfl (File.Grows.addChild _))
  · exact (append (files_newFile v _ _)).trans (modify rfl (File.Grows.addChild _))
  · exact refl v

lemma bind (v : Vfs) (f child : ℕ) (h : child < v.files.length) : v.Grows (v.bind f child h).1 := by
  unfold Vfs.bind
  split_ifs
  · exact addChild v _ child h
  · exact refl v

end Grows

end Vfs

namespace Iso9660FileSystem

open Vfs

/-- A constructor only adds files, the first of which it returns. -/
def Adds (new : Vfs → List UInt8 → Bool → Option (Vfs × ℕ)) : Prop :=
  ∀ v record skipChildren w f, new v record skipChildren = some (w, f) → v.Grows w ∧ f = v.files.length

variable {new : Vfs → List UInt8 → Bool → Option (Vfs × ℕ)} {v w : Vfs} {fs : Iso9660FileSystem}
  {this f depth : ℕ}

lemma Adds.newChild (hnew : Adds new) {extend : List UInt8}
    (h : newChild new this v extend = some (w, f)) : v.Grows w := by
  unfold Iso9660FileSystem.newChild at h
  split_ifs at h with hid hthis
  · obtain ⟨rfl, -⟩ := Prod.mk.inj (some.inj h)
    exact .append (files_newLink v dot this hthis)
  · exact (hnew _ _ _ _ _ h).1

lemma Adds.createChildren (hnew : Adds new) {length : ℕ} : ∀ {n : ℕ} {v w : Vfs} {offset : ℕ}
    {extend : List UInt8}, createChildren new this length n v offset extend = some w → v.Grows w
  | 0, _, _, _, _, h => by simp [Iso9660FileSystem.createChildren] at h
  | n + 1, v, w, offset, extend, h => by
    simp only [Iso9660FileSystem.createChildren] at h
    split_ifs at h with hoffset
    · obtain ⟨⟨u, child⟩, hchild, h⟩ := bind_eq_some_iff.1 h
      split_ifs at h with hlt
      obtain ⟨size, -, h⟩ := bind_eq_some_iff.1 h
      exact ((hnew.newChild hchild).trans (.addChild u this child hlt)).trans (Adds.createChildren hnew h)
    · cases h
      exact .refl v

lemma newIso9660File_cases {record : List UInt8} {skipChildren : Bool}
    (h : newIso9660File fs depth v record skipChildren = some (w, f)) :
    f = v.files.length ∧ ∃ name u, u.files = v.files ++ [.iso9660File name record []] ∧
      (w = u ∨ skipChildren = false ∧ ∃ d lba length, depth = d + 1 ∧
        createChildren (newIso9660File fs d) v.files.length length (length + 1) u 0
          (fs.readExtend lba (UInt32.ofNat length)) = some w) := by
  unfold newIso9660File at h
  obtain ⟨name, -, h⟩ := bind_eq_some_iff.1 h
  obtain ⟨flags, -, h⟩ := bind_eq_some_iff.1 h
  split_ifs at h with hdir
  · split at h
    · cases h
    · obtain ⟨lba, -, h⟩ := bind_eq_some_iff.1 h
      obtain ⟨length, -, h⟩ := bind_eq_some_iff.1 h
      obtain ⟨filled, hfilled, h⟩ := bind_eq_some_iff.1 h
      cases h
      exact ⟨rfl, name, _, files_newFile v _ _, .inr ⟨hdir.2, _, lba, length.toNat, rfl, by rwa [UInt32.ofNat_toNat]⟩⟩
  · cases h
    exact ⟨rfl, name, _, files_newFile v _ _, .inl rfl⟩

lemma adds_newIso9660File (fs : Iso9660FileSystem) : ∀ depth, Adds (newIso9660File fs depth)
  | 0 => fun v record skipChildren w f h => by
    obtain ⟨hf, name, u, hu, rfl | ⟨-, d, lba, length, hd, -⟩⟩ := newIso9660File_cases h
    · exact ⟨.append hu, hf⟩
    · cases hd
  | depth + 1 => fun v record skipChildren w f h => by
    obtain ⟨hf, name, u, hu, rfl | ⟨-, d, lba, length, hd, hfilled⟩⟩ := newIso9660File_cases h
    · exact ⟨.append hu, hf⟩
    · obtain rfl : depth = d := Nat.succ.inj hd
      exact ⟨(Grows.append hu).trans ((adds_newIso9660File fs depth).createChildren hfilled), hf⟩

lemma grows_mount (h : fs.mount depth v = some w) : v.Grows w := by
  obtain ⟨⟨u, file⟩, hroot, h⟩ := bind_eq_some_iff.1 h
  simp only at h
  split_ifs at h with hlt
  cases h
  obtain ⟨lba, -, hroot⟩ := bind_eq_some_iff.1 hroot
  obtain ⟨length, -, hroot⟩ := bind_eq_some_iff.1 hroot
  obtain ⟨hu, rfl⟩ := adds_newIso9660File fs depth _ _ _ _ _ hroot
  exact (hu.modify_new (Nat.le_refl _) (files_rename ..)).trans (.bind _ root _ hlt)

end Iso9660FileSystem

namespace Vfs

variable {v w : Vfs} {s n : CStr} {r : ℕ × NameMatch} {i d : ℕ}

lemma Grows.step {a : VfsCall} (h : v.step a = some w) : v.Grows w := by
  cases a with
  | create f name flags =>
    cases h
    exact .create v f name flags
  | bind f child =>
    simp only [Vfs.step] at h
    split_ifs at h with hlt
    cases h
    exact .bind v f child hlt
  | newFolder name =>
    cases h
    exact .append (files_newFolder v name)
  | newFile name =>
    cases h
    exact .append (files_newFile v ..)
  | newLeaf name =>
    cases h
    exact .append (files_newFile v ..)
  | newLink name original =>
    simp only [Vfs.step] at h
    split_ifs at h with hlt
    cases h
    exact .append (files_newLink v name original hlt)
  | newView name parent =>
    simp only [Vfs.step] at h
    split_ifs at h with hlt
    cases h
    exact .append (files_alloc ..)
  | mount fs depth => exact Iso9660FileSystem.grows_mount h

lemma Grows.reaches (h : Reaches Vfs.step Any v w) : v.Grows w :=
  h.invariant (.refl v) fun _ _ _ hv _ hs => hv.trans (.step hs)

section Get

lemma findMatch_congr : ∀ {cs : List ℕ}, (∀ c ∈ cs, w.name c = v.name c) → w.findMatch s cs = v.findMatch s cs
  | [], _ => rfl
  | c :: cs, h => by
    have ih := findMatch_congr fun c hc => h c (mem_cons_of_mem _ hc)
    simp only [Vfs.findMatch] at ih
    simp [Vfs.findMatch, findSome?_cons, h c mem_cons_self, ih]

lemma findMatch_append {cs ds : List ℕ} (h : v.findMatch s cs = some r) : v.findMatch s (cs ++ ds) = some r := by
  rw [Vfs.findMatch] at h ⊢
  rw [findSome?_append, h, some_or]

variable (h : v.Grows w)

include h

lemma Grows.name_eq (hi : i < v.files.length) : w.name i = v.name i := by
  obtain ⟨g, hg, hgrow⟩ := h.file i v.files[i] (getElem?_eq_getElem hi)
  rw [Vfs.name, Vfs.name, hg, getElem?_eq_getElem hi]
  exact hgrow.name

lemma Grows.original_eq (hi : i < v.files.length) :
    (w.files[i]?).bind File.original = (v.files[i]?).bind File.original := by
  obtain ⟨g, hg, hgrow⟩ := h.file i v.files[i] (getElem?_eq_getElem hi)
  rw [hg, getElem?_eq_getElem hi]
  exact hgrow.original

lemma Grows.opened_eq : ∀ {i : ℕ}, i < v.files.length → w.opened i = v.opened i
  | i, hi => by
    have heq := h.original_eq hi
    rcases ho : (v.files[i]?).bind File.original with _ | o
    · rw [opened_of_none ho, opened_of_none (heq.trans ho)]
    · have hlt := original_lt ho
      rw [opened_of_some ho, opened_of_some (heq.trans ho)]
      exact Grows.opened_eq (by omega)

lemma Grows.children_prefix (hi : i < v.files.length) : v.children i <+: w.children i := by
  have ho : v.opened i < v.files.length := Nat.lt_of_le_of_lt (opened_le v i) hi
  obtain ⟨g, hg, hgrow⟩ := h.file _ v.files[v.opened i] (getElem?_eq_getElem ho)
  rw [Vfs.children, Vfs.children, h.opened_eq hi, hg, getElem?_eq_getElem ho]
  exact hgrow.children

lemma Grows.findMatch (hi : i < v.files.length) (hr : v.findMatch s (v.children i) = some r) :
    w.findMatch s (w.children i) = some r := by
  obtain ⟨more, hmore⟩ := h.children_prefix hi
  rw [← hmore]
  refine findMatch_append ?_
  rw [findMatch_congr fun c hc => h.name_eq (lt_of_mem_children hc), hr]

lemma Grows.get : ∀ {p : CStr} {i f : ℕ}, i < v.files.length → v.get i p = some f → w.get i p = some f
  | p, i, f, hi, hf => by
    rcases hs : skipSlashes p with _ | s
    · rw [get_of_skipSlashes_none hs] at hf ⊢
      exact hf
    rw [get_of_skipSlashes_some hs] at hf
    obtain ⟨⟨c, m⟩, hm, hf⟩ := bind_eq_some_iff.1 hf
    obtain ⟨hc, hmatch⟩ := findMatch_eq_some hm
    rw [get_of_skipSlashes_some hs, h.findMatch hi hm, bind_some]
    cases m with
    | differs => exact hf
    | whole => exact hf
    | within rest =>
      obtain ⟨hlen, hhead⟩ := skipSlashes_eq_some hs
      have hshort := (length_of_matchName hmatch).2 hhead
      exact Grows.get (lt_of_mem_children hc) hf
  termination_by p => p.length
  decreasing_by omega

end Get

section Create

/-- The files `fs` are made, and the first of them is put into the folder behind `d`. -/
structure Created (v w : Vfs) (d : ℕ) (fs : List File) : Prop where
  grows : v.Grows w
  children : ∀ i < v.files.length, w.children i =
    if v.opened i = v.opened d then v.children i ++ [v.files.length] else v.children i
  file : ∀ j, w.files[v.files.length + j]? = fs[j]?
  kept : ∀ i < v.files.length, v.isFolder i = false → w.files[i]? = v.files[i]?
  length : w.files.length = v.files.length + fs.length

lemma Created.of_files {fs : List File} (hfolder : v.isFolder (v.opened d) = true)
    (h : w.files = (v.files ++ fs).modify (v.opened d) (File.addChild v.files.length)) :
    Created v w d fs := by
  have ho := lt_of_isFolder hfolder
  have hgrows : v.Grows w := by
    refine ⟨by simp [h], fun j f hf => ?_⟩
    have hj := (List.getElem?_eq_some_iff.1 hf).1
    rw [h, getElem?_modify, getElem?_append_left hj, hf]
    by_cases hij : v.opened d = j
    · exact ⟨_, by simp [hij], .addChild v.files.length f⟩
    · exact ⟨f, by simp [hij], .refl f⟩
  refine ⟨hgrows, fun i hi => ?_, fun j => ?_, fun i hi hfile => ?_, by simp [h]⟩
  · have hlt : v.opened i < v.files.length := Nat.lt_of_le_of_lt (opened_le v i) hi
    rw [Vfs.children, hgrows.opened_eq hi, h, getElem?_modify, getElem?_append_left hlt,
      getElem?_eq_getElem hlt, Vfs.children, getElem?_eq_getElem hlt]
    by_cases heq : v.opened i = v.opened d
    · rw [isFolder, ← heq, getElem?_eq_getElem hlt] at hfolder
      rcases hf : v.files[v.opened i] with ⟨name, children⟩ | _ | _ | _ | _ | _
      · simp [heq, File.addChild, File.children]
      all_goals simp [hf, File.isFolder] at hfolder
    · have hne : v.opened d ≠ v.opened i := fun e => heq e.symm
      simp [heq, hne]
  · have hne : v.opened d ≠ v.files.length + j := by omega
    rw [h, getElem?_modify, getElem?_append_right (by omega)]
    simp [hne]
  · have hne : v.opened d ≠ i := by
      rintro rfl
      cases hfolder.symm.trans hfile
    rw [h, getElem?_modify, getElem?_append_left hi]
    simp [hne]

lemma lt_of_isFolder_opened (h : v.isFolder (v.opened d) = true) : d < v.files.length := by
  by_contra hlt
  have hnone : v.files[d]? = none := getElem?_eq_none (Nat.le_of_not_lt hlt)
  rw [opened_of_none (by rw [hnone]; rfl)] at h
  exact hlt (lt_of_isFolder h)

variable {flags : UInt32}

lemma created_dir (hfolder : v.isFolder (v.opened d) = true) (hdir : flags &&& fileCreateDir ≠ 0) :
    (v.create d n flags).2 = some v.files.length ∧ Created v (v.create d n flags).1 d
      [.virtualFolder n [v.files.length + 1, v.files.length + 2], .fileLink dot v.files.length,
        .fileLink dotdot (v.opened d)] := by
  rw [Vfs.create, dif_pos hfolder, if_pos hdir]
  exact ⟨rfl, .of_files hfolder (by rw [files_addChild, files_newSubfolder])⟩

lemma Created.links {o : ℕ} (h : Created v w d [.virtualFolder n [v.files.length + 1, v.files.length + 2],
      .fileLink dot v.files.length, .fileLink dotdot o]) :
    w.children v.files.length = [v.files.length + 1, v.files.length + 2] ∧
      w.name v.files.length = n ∧ w.name (v.files.length + 1) = dot ∧ w.name (v.files.length + 2) = dotdot := by
  have hself := h.file 0
  have hdot := h.file 1
  have hdotdot := h.file 2
  simp only [Nat.add_zero] at hself hdot hdotdot
  refine ⟨?_, ?_, ?_, ?_⟩
  · rw [Vfs.children, opened_of_none (by rw [hself]; rfl), hself]
    rfl
  · rw [Vfs.name, hself]
    rfl
  · rw [Vfs.name, hdot]
    rfl
  · rw [Vfs.name, hdotdot]
    rfl

lemma created_file (hfolder : v.isFolder (v.opened d) = true) (hdir : flags &&& fileCreateDir = 0) :
    (v.create d n flags).2 = some v.files.length ∧ Created v (v.create d n flags).1 d [.virtualFile n .empty] := by
  rw [Vfs.create, dif_pos hfolder, if_neg (not_not.2 hdir)]
  exact ⟨rfl, .of_files hfolder (by rw [files_addChild, files_newFile])⟩

end Create

/-- A path that leads to a file leads to it in every state after, and a working directory that leads
somewhere still does after any calls of `setwd`. -/
structure Stable (v : Vfs) : Prop where
  get : ∀ w, Reaches Vfs.step Any v w → ∀ p f, v.fileGet root p = some f → w.fileGet root p = some f
  setwd : ∀ wd s, (v.fileGet root wd).isSome → Reaches Session.step Any ⟨v, wd⟩ s →
    (s.vfs.fileGet root s.workingDirectory).isSome ∧
      ∀ before wd', (s.vfs.setwd before s.workingDirectory wd').2 = -1 →
        (s.vfs.setwd before s.workingDirectory wd').1 = s.workingDirectory

lemma root_lt (h : Reaches Vfs.step Any init v) : root < v.files.length :=
  Nat.lt_of_lt_of_le (by decide : root < init.files.length) (Grows.reaches h).length_le

lemma session_keeps (hv : root < v.files.length) {s t : Session} {a : SessionCall}
    (hs : v.Grows s.vfs ∧ (s.vfs.fileGet root s.workingDirectory).isSome)
    (h : s.step a = some t) : v.Grows t.vfs ∧ (t.vfs.fileGet root t.workingDirectory).isSome := by
  obtain ⟨hgrow, hwd⟩ := hs
  cases a with
  | vfs call =>
    obtain ⟨w, hw, rfl⟩ := map_eq_some_iff.1 h
    have hstep := Grows.step hw
    obtain ⟨f, hf⟩ := isSome_iff_exists.1 hwd
    rw [fileGet_root] at hf
    refine ⟨hgrow.trans hstep, ?_⟩
    rw [fileGet_root, hstep.get (Nat.lt_of_lt_of_le hv hgrow.length_le) hf]
    rfl
  | setwd before wd =>
    cases h
    refine ⟨hgrow, ?_⟩
    simp only [Vfs.setwd]
    split
    · exact hwd
    · rename_i f hf
      rw [hf]
      rfl

lemma setwd_of_failed (v : Vfs) (before : UInt8) (wd wd' : CStr)
    (h : (v.setwd before wd wd').2 = -1) : (v.setwd before wd wd').1 = wd := by
  unfold Vfs.setwd at h ⊢
  split at h
  · rfl
  · exact absurd (show (0 : Int) = -1 from h) (by decide)

theorem resolution_stable (hv : Reaches Vfs.step Any init v) : v.Stable := by
  have hroot := root_lt hv
  refine ⟨fun w hw p f hf => ?_, fun wd s hwd hs => ?_⟩
  · rw [fileGet_root] at hf ⊢
    exact (Grows.reaches hw).get hroot hf
  · have hinv := hs.invariant
      ⟨.refl v, hwd⟩
      fun _ _ _ h _ hstep => session_keeps hroot h hstep
    exact ⟨hinv.2, fun before wd' h => setwd_of_failed s.vfs before s.workingDirectory wd' h⟩

def devFolder : Vfs := (init.create root (chars ['d', 'e', 'v']) fileCreateDir).1

lemma devFolder_get : devFolder.fileGet root (chars ['d', 'e', 'v']) = some 3 := by
  have hnamed : devFolder.Named := named_of_files (by decide)
  rw [fileGet_root, get_eq_walk hnamed _ _ (by decide)]
  decide

theorem resolution_stable_twice : ∃ w : Vfs, Reaches Vfs.step Any devFolder w ∧
    w.children root = [1, 2, 3, 6] ∧ w.name 6 = w.name 3 ∧ w.fileGet root (chars ['d', 'e', 'v']) = some 3 := by
  have hv : Reaches Vfs.step Any init devFolder :=
    (Reaches.refl init).tail (a := .create root (chars ['d', 'e', 'v']) fileCreateDir) trivial rfl
  obtain ⟨w, hw, hchildren, hname⟩ : ∃ w : Vfs, Reaches Vfs.step Any devFolder w ∧
      w.children root = [1, 2, 3, 6] ∧ w.name 6 = w.name 3 :=
    exists_of_run [.newFolder (chars ['d', 'e', 'v']), .bind root 6] (by decide)
  exact ⟨w, hw, hchildren, hname, (resolution_stable hv).get w hw _ 3 devFolder_get⟩

end Vfs

end OlliOS
