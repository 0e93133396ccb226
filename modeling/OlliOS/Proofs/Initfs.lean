import Mathlib.Data.List.Nodup
import OlliOS.Initfs
import OlliOS.Proofs.DotDot
import OlliOS.Proofs.VirtualFile

/-!
# Unpacking the archive

`Unpacked v base dirs files` describes the tree below a folder by paths. Creating a child changes what
is found at one path only (`Unpacked.walk_created`).
-/

namespace OlliOS

open Stepping List UInt32 TarFile
open Option hiding or_assoc

section Strings

lemma strcmp_self {rest : List UInt8} : ∀ {s : CStr}, 0 ∉ s → strcmp (s ++ 0 :: rest) (s ++ [0]) = some 0
  | [], _ => by simp [strcmp]
  | c :: s, h => by
    simp only [mem_cons, not_or] at h
    simp [strcmp, strcmp_self h.2]

namespace Strtol

lemma digits_cons {d : ℕ} (hd : d < 8) (r : UInt32) (rest : List UInt8) :
    digits 8 '7'.toUInt8 r (('0'.toUInt8 + UInt8.ofNat d) :: rest) = digits 8 '7'.toUInt8 (r * 8 + ofNat d) rest := by
  have hall : ∀ d : Fin 8, ('0'.toUInt8 ≤ '0'.toUInt8 + UInt8.ofNat d ∧ '0'.toUInt8 + UInt8.ofNat d ≤ '7'.toUInt8) ∧
      ('0'.toUInt8 + UInt8.ofNat d - '0'.toUInt8).toUInt32 = ofNat d := by decide
  obtain ⟨hdigit, hvalue⟩ := hall ⟨d, hd⟩
  rw [digits, if_pos hdigit, hvalue]

lemma digits_octal (rest : List UInt8) : ∀ (k n m : ℕ), n < 8 ^ k →
    digits 8 '7'.toUInt8 (ofNat m) (octal k n ++ rest) = digits 8 '7'.toUInt8 (ofNat (m * 8 ^ k + n)) rest
  | 0, n, m, h => by
    obtain rfl : n = 0 := by simpa using h
    simp [octal]
  | k + 1, n, m, h => by
    have hdiv : n / 8 < 8 ^ k := by omega
    have hvalue : (m * 8 ^ k + n / 8) * 8 + n % 8 = m * 8 ^ (k + 1) + n := by
      rw [Nat.pow_succ, ← Nat.mul_assoc]
      omega
    rw [octal, append_assoc, singleton_append, digits_octal _ k (n / 8) m hdiv,
      digits_cons (Nat.mod_lt n (by decide)), ← hvalue, ofNat_add _ (n % 8),
      ofNat_mul _ 8]
    rfl

end Strtol

lemma octal_head : ∀ (k n : ℕ), ∃ d < 8, ∃ rest, octal (k + 1) n = ('0'.toUInt8 + UInt8.ofNat d) :: rest
  | 0, n => ⟨n % 8, Nat.mod_lt n (by decide), [], rfl⟩
  | k + 1, n => by
    obtain ⟨d, hd, rest, h⟩ := octal_head k (n / 8)
    exact ⟨d, hd, rest ++ ['0'.toUInt8 + UInt8.ofNat (n % 8)], by rw [octal, h]; rfl⟩

lemma strtol_octal {n : ℕ} (h : n < 8 ^ 11) (rest : List UInt8) :
    strtol (octal 11 n ++ 0 :: rest) 8 = some (ofNat n, 0 :: rest) := by
  have hdigits := Strtol.digits_octal (0 :: rest) 11 n 0 h
  obtain ⟨d, hd, more, hhead⟩ := octal_head 10 n
  have hall : ∀ d : Fin 8, isspace ('0'.toUInt8 + UInt8.ofNat d) = false ∧
      '0'.toUInt8 + UInt8.ofNat d ≠ '-'.toUInt8 ∧ '0'.toUInt8 + UInt8.ofNat d ≠ '+'.toUInt8 := by
    decide
  obtain ⟨hspace, hminus, hplus⟩ := hall ⟨d, hd⟩
  have hdrop : (octal 11 n ++ 0 :: rest).dropWhile isspace = octal 11 n ++ 0 :: rest := by
    rw [hhead, cons_append, dropWhile_cons_of_neg (by simpa using hspace)]
  have hsign : Strtol.sign (octal 11 n ++ 0 :: rest) = some (true, octal 11 n ++ 0 :: rest) := by
    rw [hhead, cons_append, Strtol.sign, if_neg hminus, if_neg hplus]
  have hend : Strtol.digits 8 '7'.toUInt8 (ofNat (0 * 8 ^ 11 + n)) (0 :: rest) = some (ofNat n, 0 :: rest) := by
    rw [Strtol.digits, if_neg (by decide), Nat.zero_mul, Nat.zero_add]
  rw [strtol, hdrop, hsign]
  simp only [bind_eq_bind, bind_some]
  rw [show (0 : UInt32) = ofNat 0 from rfl, hdigits, hend]
  rfl

namespace Initfs

def nulJoin : List CStr → List UInt8 → List UInt8
  | [], rest => rest
  | c :: cs, rest => c ++ 0 :: nulJoin cs rest

lemma nulJoin_append (cs ds : List CStr) (rest : List UInt8) :
    nulJoin (cs ++ ds) rest = nulJoin cs (nulJoin ds rest) := by
  induction cs with
  | nil => rfl
  | cons c cs ih => simp [nulJoin, ih]

lemma nulJoin_modifyHead {a : UInt8} {rest : List UInt8} : ∀ {cs : List CStr}, cs ≠ [] →
    nulJoin (cs.modifyHead (a :: ·)) rest = a :: nulJoin cs rest
  | [], h => absurd rfl h
  | _ :: _, _ => rfl

lemma splitFilename_append (rest : List UInt8) : ∀ {name : CStr}, 0 ∉ name →
    splitFilename (name ++ 0 :: rest) = some ((name.splitOn slash).length, nulJoin (name.splitOn slash) rest)
  | [], _ => by simp [splitFilename, nulJoin]
  | c :: name, h => by
    simp only [mem_cons, not_or] at h
    have hc : c ≠ 0 := fun e => h.1 e.symm
    rw [cons_append, splitFilename, if_neg hc, splitFilename_append rest h.2, splitOn_cons_eq_if_modifyHead]
    by_cases hslash : c = slash
    · simp [hslash, nulJoin]
    · simp [hslash, nulJoin_modifyHead (splitOn_ne_nil slash name)]

lemma nulJoin_splitOn (rest : List UInt8) : ∀ name : CStr, ∃ split : List UInt8,
    split.length = name.length + 1 ∧ nulJoin (name.splitOn slash) rest = split ++ rest
  | [] => ⟨[0], rfl, by simp [nulJoin]⟩
  | c :: name => by
    obtain ⟨split, hlen, hsplit⟩ := nulJoin_splitOn rest name
    rw [splitOn_cons_eq_if_modifyHead]
    by_cases hslash : c = slash
    · exact ⟨0 :: split, by simp [hlen], by simp [hslash, nulJoin, hsplit]⟩
    · refine ⟨c :: split, by simp [hlen], ?_⟩
      simp [hslash, nulJoin_modifyHead (splitOn_ne_nil slash name), hsplit]

end Initfs

end Strings

namespace Vfs

section Below

variable {v w : Vfs} {d : ℕ} {f : ℕ} {n : CStr} {g : File} {c : VirtualFile}

lemma opened_of_isFolder (h : v.isFolder f = true) : v.opened f = f := by
  refine opened_of_none ?_
  rw [isFolder] at h
  rcases hf : v.files[f]? with _ | ⟨name, children⟩ | _ | _ | _ | _ | _
  · rfl
  · rfl
  all_goals simp [hf, File.isFolder] at h

lemma opened_of_virtualFile (h : v.files[f]? = some (.virtualFile n c)) : v.opened f = f :=
  opened_of_none (by rw [h]; rfl)

lemma children_of_mem {i c : ℕ} (hg : v.files[i]? = some g) (hc : c ∈ g.children) : v.children i = g.children := by
  have horiginal : (v.files[i]?).bind File.original = none := by
    rw [hg]
    cases g
    all_goals first | rfl | simp [File.children] at hc
  rw [children, opened_of_none horiginal, hg]
  rfl

lemma name_of_file {i : ℕ} (hg : v.files[i]? = some g) : v.name i = g.name := by
  rw [name, hg]
  rfl

lemma Created.named {fs : List File} (hw : Created v w d fs) (hv : v.Named)
    (hnew : w.name v.files.length ≠ [] ∧ slash ∉ w.name v.files.length)
    (hfs : ∀ g ∈ fs, ∀ c ∈ g.children, w.name c ≠ [] ∧ slash ∉ w.name c) : w.Named := by
  refine named_of_files fun g hg c hc => ?_
  obtain ⟨i, hi⟩ := getElem?_of_mem hg
  by_cases hlt : i < v.files.length
  · have hchildren := hw.children i hlt
    rw [children_of_mem hi hc] at hchildren
    have hmem : c ∈ v.children i ∨ c = v.files.length := by
      rw [hchildren] at hc
      split_ifs at hc
      · simpa using hc
      · exact .inl hc
    rcases hmem with hmem | rfl
    · rw [hw.grows.name_eq (lt_of_mem_children hmem)]
      exact hv i c hmem
    · exact hnew
  · obtain ⟨j, rfl⟩ := Nat.exists_eq_add_of_le (Nat.le_of_not_lt hlt)
    rw [hw.file j] at hi
    exact hfs g (mem_of_getElem? hi) c hc

lemma Created.named_newFolder {o : ℕ}
    (hw : Created v w d [.virtualFolder n [v.files.length + 1, v.files.length + 2],
      .fileLink dot v.files.length, .fileLink dotdot o])
    (hv : v.Named) (hn : n ≠ [] ∧ slash ∉ n) : w.Named := by
  obtain ⟨-, hname, hdot, hdotdot⟩ := hw.links
  have hproper : (dot ≠ [] ∧ slash ∉ dot) ∧ dotdot ≠ [] ∧ slash ∉ dotdot := by decide
  refine hw.named hv (by rw [hname]; exact hn) fun f hf c hc => ?_
  simp only [mem_cons, not_mem_nil, or_false] at hf
  rcases hf with rfl | rfl | rfl
  · simp only [File.children, mem_cons, not_mem_nil, or_false] at hc
    rcases hc with rfl | rfl
    · rw [hdot]
      exact hproper.1
    · rw [hdotdot]
      exact hproper.2
  · simp [File.children] at hc
  · simp [File.children] at hc

lemma Created.setContent (h : Created v w d [.virtualFile n c]) (content : VirtualFile) :
    Created v (w.setContent v.files.length content) d [.virtualFile n content] := by
  have hother : ∀ i, i ≠ v.files.length → (w.setContent v.files.length content).files[i]? = w.files[i]? := by
    intro i hi
    simp [Ne.symm hi]
  have hsame := Grows.setContent w v.files.length content
  refine ⟨h.grows.modify_new (Nat.le_refl _) rfl, fun i hi => ?_, fun j => ?_, fun i hi hf => ?_, ?_⟩
  · have hlt : i < w.files.length := Nat.lt_of_lt_of_le hi h.grows.length_le
    have hopen : w.opened i ≠ v.files.length := Nat.ne_of_lt (Nat.lt_of_le_of_lt (opened_le w i) hi)
    rw [← h.children i hi, Vfs.children, hsame.opened_eq hlt, hother _ hopen, Vfs.children]
  · have hfile := h.file j
    rcases j with _ | j
    · simp only [Nat.add_zero] at hfile ⊢
      simp [hfile, File.setContent]
    · rw [hother _ (by omega), hfile]
      simp
  · rw [hother i (by omega), h.kept i hi hf]
  · simpa using h.length

lemma isFolder_of_grows (h : v.Grows w) (hf : v.isFolder f = true) : w.isFolder f = true := by
  have hlt := lt_of_isFolder hf
  obtain ⟨g, hg, hgrow⟩ := h.file f v.files[f] (getElem?_eq_getElem hlt)
  rw [isFolder, getElem?_eq_getElem hlt] at hf
  rwa [isFolder, hg, any_some, hgrow.isFolder]

lemma walk_snoc (f : ℕ) (ns : List CStr) (n : CStr) : v.walk f (ns ++ [n]) = (v.walk f ns).bind (v.child · n) := by
  rw [walk_append]
  refine congrArg _ (funext fun g => ?_)
  exact Paths.walk_singleton g n

end Below

end Vfs

structure Ordinary (n : CStr) : Prop where
  ne_nil : n ≠ []
  slash : slash ∉ n
  dot : n ≠ dot
  dotdot : n ≠ dotdot

lemma child_newFolder {v w : Vfs} {d o : ℕ} {n m : CStr} (hw : Vfs.Created v w d
      [.virtualFolder n [v.files.length + 1, v.files.length + 2], .fileLink dot v.files.length,
        .fileLink dotdot o]) (hm : Ordinary m) : w.child v.files.length m = none := by
  obtain ⟨hchildren, -, hdot, hdotdot⟩ := hw.links
  have h1 : ¬ dot = m := fun e => hm.dot e.symm
  have h2 : ¬ dotdot = m := fun e => hm.dotdot e.symm
  rw [Vfs.child, Paths.child, hchildren, find?_cons_of_neg (by simpa [hdot] using h1),
    find?_cons_of_neg (by simpa [hdotdot] using h2), find?_nil]

/-- The tree below a folder: the paths that lead to folders, and those that lead to files and to what
content. -/
structure Unpacked (v : Vfs) (base : ℕ) (dirs : List CStr → Prop)
    (files : List CStr → List UInt8 → Prop) : Prop where
  named : v.Named
  ordinary : ∀ ns, dirs ns → ∀ n ∈ ns, Ordinary n
  plain : ∀ ns bytes, files ns bytes → ∀ n ∈ ns, Ordinary n
  dir : ∀ ns, dirs ns → ∃ g, v.walk base ns = some g ∧ v.isFolder g = true
  file : ∀ ns bytes, files ns bytes → ∃ g n c, v.walk base ns = some g ∧
    v.files[g]? = some (.virtualFile n c) ∧ c.Holds bytes
  known : ∀ ns g, (∀ n ∈ ns, Ordinary n) → v.walk base ns = some g → dirs ns ∨ ∃ bytes, files ns bytes
  inj : ∀ ns ms g, (∀ n ∈ ns, Ordinary n) → (∀ n ∈ ms, Ordinary n) → v.walk base ns = some g →
    v.walk base ms = some g → ns = ms
  once : ∀ ns g, dirs ns → v.walk base ns = some g → ((v.children g).map v.name).Nodup

namespace Unpacked

open Vfs

variable {v w : Vfs} {base : ℕ} {dirs dirs' : List CStr → Prop} {files files' : List CStr → List UInt8 → Prop}
  {n : CStr} {f : File} {ds : List CStr}

lemma congr (h : Unpacked v base dirs files) (hdirs : ∀ ns, dirs ns ↔ dirs' ns)
    (hfiles : ∀ ns bytes, files ns bytes ↔ files' ns bytes) : Unpacked v base dirs' files' := by
  obtain rfl : dirs = dirs' := funext fun ns => propext (hdirs ns)
  obtain rfl : files = files' := funext fun ns => funext fun bytes => propext (hfiles ns bytes)
  exact h

lemma opened_eq (h : Unpacked v base dirs files) {ns : List CStr} {g : ℕ}
    (hns : ∀ n ∈ ns, Ordinary n) (hg : v.walk base ns = some g) :
    v.opened g = g ∧ g < v.files.length := by
  rcases h.known ns g hns hg with hdir | ⟨bytes, hfile⟩
  · obtain ⟨g', hg', hfolder⟩ := h.dir ns hdir
    obtain rfl : g = g' := some.inj (hg.symm.trans hg')
    exact ⟨opened_of_isFolder hfolder, lt_of_isFolder hfolder⟩
  · obtain ⟨g', n, c, hg', hcontent, -⟩ := h.file ns bytes hfile
    obtain rfl : g = g' := some.inj (hg.symm.trans hg')
    exact ⟨opened_of_virtualFile hcontent, (List.getElem?_eq_some_iff.1 hcontent).1⟩

structure NewChild (v w : Vfs) (base : ℕ) (ds : List CStr) (n : CStr) (f : File) : Prop where
  folder : ∃ g fs, v.walk base ds = some g ∧ v.child g n = none ∧ Created v w g (f :: fs)
  name : f.name = n
  bare : ∀ m, Ordinary m → w.child v.files.length m = none
  named : w.Named

lemma walk_created (h : Unpacked v base dirs files)
    (hds : dirs ds) (hw : NewChild v w base ds n f) : ∀ ns : List CStr, (∀ m ∈ ns, Ordinary m) →
      w.walk base ns = if ns = ds ++ [n] then some v.files.length else v.walk base ns := by
  obtain ⟨g0, fs, hg0, hfree, hcreated⟩ := hw.folder
  have hfile := hcreated.file 0
  have hname : w.name v.files.length = n := by rw [name_of_file (by simpa using hfile), hw.name]
  intro ns
  induction ns using List.reverseRecOn with
  | nil =>
    intro _
    rw [if_neg (by simp)]
    rfl
  | append_singleton ns m ih =>
    intro hord
    have hns : ∀ k ∈ ns, Ordinary k := fun k hk => hord k (by simp [hk])
    have hm : Ordinary m := hord m (by simp)
    rw [walk_snoc, walk_snoc, ih hns]
    by_cases hnew : ns = ds ++ [n]
    · -- below the new child there is nothing
      rw [if_pos hnew, bind_some, hw.bare m hm, if_neg (by simp [hnew]), hnew, walk_snoc, hg0,
        bind_some, hfree, bind_none]
    rw [if_neg hnew]
    rcases hg : v.walk base ns with _ | g
    · have hne : ns ++ [m] ≠ ds ++ [n] := fun e => by
        obtain ⟨rfl, -⟩ := append_inj' e rfl
        cases hg0.symm.trans hg
      rw [if_neg hne]
      rfl
    obtain ⟨hopen, hlt⟩ := h.opened_eq hns hg
    obtain ⟨hopen0, -⟩ := h.opened_eq (h.ordinary ds hds) hg0
    have hchildren := hcreated.children g hlt
    rw [hopen, hopen0] at hchildren
    have hkeep : ∀ k ∈ v.children g, w.name k = v.name k := fun k hk =>
      hcreated.grows.name_eq (lt_of_mem_children hk)
    by_cases hdir : ns = ds
    · obtain rfl : g0 = g := some.inj (hg0.symm.trans (hdir ▸ hg))
      rw [if_pos rfl] at hchildren
      have hchild := Paths.child_append m hchildren hkeep
      rw [bind_some, bind_some, Vfs.child, hchild]
      by_cases hmn : m = n
      · subst hmn hdir
        rw [if_pos rfl, ← Vfs.child, hfree, none_or, find?_cons_of_pos (by simp [hname])]
      · have hne : ns ++ [m] ≠ ds ++ [n] := fun e => hmn (by simpa using (append_inj' e rfl).2)
        have hother : ¬ w.name v.files.length = m := fun e => hmn (e.symm.trans hname)
        rw [if_neg hne, find?_cons_of_neg (by simpa using hother), find?_nil, or_none, Vfs.child]
    · have hgne : g ≠ g0 := fun e => hdir (h.inj ns ds g hns (h.ordinary ds hds) hg (e ▸ hg0))
      rw [if_neg hgne, ← append_nil (v.children g)] at hchildren
      have hchild := Paths.child_append m hchildren hkeep
      have hne : ns ++ [m] ≠ ds ++ [n] := fun e => hdir (append_inj' e rfl).1
      rw [if_neg hne, bind_some, bind_some, Vfs.child, hchild, find?_nil, or_none, Vfs.child]

lemma created (h : Unpacked v base dirs files) (hds : dirs ds) (hn : Ordinary n) (hw : NewChild v w base ds n f)
    (hdirs : ∀ ns, dirs' ns ↔ dirs ns ∨ f.isFolder = true ∧ ns = ds ++ [n])
    (hfiles : ∀ ns bytes, files' ns bytes ↔ files ns bytes ∨ ns = ds ++ [n] ∧ ∃ c, f = .virtualFile n c ∧ c.Holds bytes)
    (hkind : f.isFolder = true ∧ ((w.children v.files.length).map w.name).Nodup ∨
      ∃ c bytes, f = .virtualFile n c ∧ c.Holds bytes) :
    Unpacked w base dirs' files' := by
  have hwalk := h.walk_created hds hw
  obtain ⟨g0, fs, hg0, hfree, hcreated⟩ := hw.folder
  have hgrows := hcreated.grows
  have hfile : w.files[v.files.length]? = some f := by simpa using hcreated.file 0
  have hpath : ∀ m ∈ ds ++ [n], Ordinary m := by
    intro m hm
    rcases mem_append.1 hm with hm | hm
    · exact h.ordinary ds hds m hm
    · rwa [mem_singleton.1 hm]
  have hnone : v.walk base (ds ++ [n]) = none := by rw [walk_snoc, hg0, bind_some, hfree]
  have hnew : w.walk base (ds ++ [n]) = some v.files.length := by rw [hwalk _ hpath, if_pos rfl]
  -- a path that led somewhere leads there still
  have hold : ∀ ns g, (∀ m ∈ ns, Ordinary m) → v.walk base ns = some g → w.walk base ns = some g := by
    intro ns g hns hg
    have hne : ns ≠ ds ++ [n] := by
      rintro rfl
      cases hnone.symm.trans hg
    rw [hwalk ns hns, if_neg hne, hg]
  -- and where a path leads now it led before, unless it is the new one
  have hback : ∀ ns g, (∀ m ∈ ns, Ordinary m) → w.walk base ns = some g →
      ns = ds ++ [n] ∧ g = v.files.length ∨ v.walk base ns = some g := by
    intro ns g hns hg
    rw [hwalk ns hns] at hg
    split_ifs at hg with hpath
    · exact .inl ⟨hpath, (some.inj hg).symm⟩
    · exact .inr hg
  refine ⟨hw.named, fun ns hns => ?_, fun ns bytes hns => ?_, fun ns hns => ?_, fun ns bytes hns => ?_,
    fun ns g hord hg => ?_, fun ns ms g hns hms hg hg' => ?_, fun ns g hns hg => ?_⟩
  · rcases (hdirs ns).1 hns with hns | ⟨-, rfl⟩
    · exact h.ordinary ns hns
    · exact hpath
  · rcases (hfiles ns bytes).1 hns with hns | ⟨rfl, -⟩
    · exact h.plain ns bytes hns
    · exact hpath
  · rcases (hdirs ns).1 hns with hns | ⟨hf, rfl⟩
    · obtain ⟨g, hg, hfolder⟩ := h.dir ns hns
      exact ⟨g, hold ns g (h.ordinary ns hns) hg, isFolder_of_grows hgrows hfolder⟩
    · exact ⟨_, hnew, by rw [isFolder, hfile]; exact hf⟩
  · rcases (hfiles ns bytes).1 hns with hns | ⟨rfl, c, rfl, hc⟩
    · obtain ⟨g, m, c, hg, hcontent, hc⟩ := h.file ns bytes hns
      have hleaf : v.isFolder g = false := by
        rw [isFolder, hcontent]
        rfl
      have hkept := hcreated.kept g (List.getElem?_eq_some_iff.1 hcontent).1 hleaf
      exact ⟨g, m, c, hold ns g (h.plain ns bytes hns) hg, hkept.trans hcontent, hc⟩
    · exact ⟨_, n, c, hnew, hfile, hc⟩
  · rcases hback ns g hord hg with ⟨rfl, rfl⟩ | hg
    · rcases hkind with ⟨hf, -⟩ | ⟨c, bytes, hf, hc⟩
      · exact .inl ((hdirs _).2 (.inr ⟨hf, rfl⟩))
      · exact .inr ⟨bytes, (hfiles _ _).2 (.inr ⟨rfl, c, hf, hc⟩)⟩
    · rcases h.known ns g hord hg with hdir | ⟨bytes, hb⟩
      · exact .inl ((hdirs ns).2 (.inl hdir))
      · exact .inr ⟨bytes, (hfiles ns bytes).2 (.inl hb)⟩
  · rcases hback ns g hns hg with ⟨rfl, rfl⟩ | hg
    · rcases hback ms _ hms hg' with ⟨rfl, -⟩ | hg'
      · rfl
      · exact absurd (h.opened_eq hms hg').2 (Nat.lt_irrefl _)
    · rcases hback ms g hms hg' with ⟨rfl, rfl⟩ | hg'
      · exact absurd (h.opened_eq hns hg).2 (Nat.lt_irrefl _)
      · exact h.inj ns ms g hns hms hg hg'
  · rcases (hdirs ns).1 hns with hns | ⟨hf, rfl⟩
    · obtain ⟨g', hg', -⟩ := h.dir ns hns
      obtain rfl : g = g' := some.inj (hg.symm.trans (hold ns g' (h.ordinary ns hns) hg'))
      obtain ⟨-, hlt⟩ := h.opened_eq (h.ordinary ns hns) hg'
      have hkeep : (v.children g).map w.name = (v.children g).map v.name :=
        map_congr_left fun k hk => hgrows.name_eq (lt_of_mem_children hk)
      have hnodup := h.once ns g hns hg'
      rw [hcreated.children g hlt]
      split_ifs with hopen
      · rw [map_append, hkeep, map_singleton, name_of_file hfile, hw.name]
        refine nodup_append.2 ⟨hnodup, by simp, fun a ha b hb => ?_⟩
        obtain ⟨k, hk, rfl⟩ := List.mem_map.1 ha
        rw [children_eq_of_opened_eq hopen] at hk
        rw [mem_singleton.1 hb]
        simpa using find?_eq_none.1 hfree k hk
      · rwa [hkeep]
    · obtain rfl : v.files.length = g := some.inj (hnew.symm.trans hg)
      rcases hkind with ⟨-, hnodup⟩ | ⟨c, bytes, rfl, -⟩
      · exact hnodup
      · simp [File.isFolder] at hf

section NewChild

variable {ds : List CStr} {n : CStr} {g : ℕ}

lemma newFolder (h : Unpacked v base dirs files) (hds : dirs ds) (hg : v.walk base ds = some g)
    (hn : Ordinary n) (hfree : v.child g n = none) :
    (v.create g n fileCreateDir).2 = some v.files.length ∧
      Unpacked (v.create g n fileCreateDir).1 base (fun ns => dirs ns ∨ ns = ds ++ [n]) files ∧
      v.Grows (v.create g n fileCreateDir).1 ∧
      (v.create g n fileCreateDir).1.walk base (ds ++ [n]) = some v.files.length := by
  obtain ⟨g', hg', hfolder⟩ := h.dir ds hds
  obtain rfl : g = g' := some.inj (hg.symm.trans hg')
  have hopen := opened_of_isFolder hfolder
  obtain ⟨hnew, hw⟩ := created_dir (by rw [hopen]; exact hfolder)
    (show fileCreateDir &&& fileCreateDir ≠ 0 by decide)
  obtain ⟨hchildren, -, hdot, hdotdot⟩ := hw.links
  have hchild : NewChild v (v.create g n fileCreateDir).1 base ds n
      (.virtualFolder n [v.files.length + 1, v.files.length + 2]) :=
    ⟨⟨g, _, hg, hfree, hw⟩, rfl, fun _ hm => child_newFolder hw hm, hw.named_newFolder h.named ⟨hn.ne_nil, hn.slash⟩⟩
  have hunpacked : Unpacked (v.create g n fileCreateDir).1 base (fun ns => dirs ns ∨ ns = ds ++ [n]) files :=
    h.created hds hn hchild (by simp [File.isFolder]) (by simp)
      (.inl ⟨rfl, by rw [hchildren]; simp [hdot, hdotdot, show dot ≠ dotdot by decide]⟩)
  refine ⟨hnew, hunpacked, hw.grows, ?_⟩
  rw [h.walk_created hds hchild _ (hunpacked.ordinary _ (.inr rfl)), if_pos rfl]

lemma newFile (h : Unpacked v base dirs files) (hds : dirs ds) (hg : v.walk base ds = some g)
    (hn : Ordinary n) (hfree : v.child g n = none) (fresh : ℕ → ℕ → Chunk) {bytes : List UInt8}
    (hbytes : bytes.length < 2 ^ 32) :
    (v.create g n 0).2 = some v.files.length ∧
      ∃ w, Initfs.writeFile fresh (v.create g n 0).1 v.files.length bytes = some w ∧
        Unpacked w base dirs (fun ns b => files ns b ∨ ns = ds ++ [n] ∧ b = bytes) ∧ v.Grows w := by
  obtain ⟨g', hg', hfolder⟩ := h.dir ds hds
  obtain rfl : g = g' := some.inj (hg.symm.trans hg')
  have hopen := opened_of_isFolder hfolder
  obtain ⟨hnew, hu⟩ := created_file (by rw [hopen]; exact hfolder) (show 0 &&& fileCreateDir = 0 by decide)
  have hempty : (v.create g n 0).1.files[v.files.length]? = some (.virtualFile n .empty) := by
    simpa using hu.file 0
  obtain ⟨c, hc, hholds⟩ := VirtualFile.holds_empty.write (fresh v.files.length) bytes (by simpa using hbytes)
  have hw := hu.setContent c
  refine ⟨hnew, (v.create g n 0).1.setContent v.files.length c, ?_, ?_, hw.grows⟩
  · rw [Initfs.writeFile, opened_of_virtualFile hempty, hempty]
    simp only [bind_eq_bind, bind_eq_some_iff]
    exact ⟨c, hc, rfl⟩
  have hfile : ((v.create g n 0).1.setContent v.files.length c).files[v.files.length]? =
      some (.virtualFile n c) := by simpa using hw.file 0
  generalize (v.create g n 0).1.setContent v.files.length c = w at hw hfile
  have hname : w.name v.files.length = n := name_of_file hfile
  have hnamed : w.Named := by
    refine hw.named h.named (by rw [hname]; exact ⟨hn.ne_nil, hn.slash⟩) fun f hf k hk => ?_
    rw [mem_singleton.1 hf] at hk
    simp [File.children] at hk
  have hchild : NewChild v w base ds n (.virtualFile n c) := by
    refine ⟨⟨g, _, hg, hfree, hw⟩, rfl, fun m _ => ?_, hnamed⟩
    rw [Vfs.child, Paths.child, Vfs.children, opened_of_virtualFile hfile, hfile]
    rfl
  refine h.created hds hn hchild (by simp [File.isFolder]) (fun ns b => ?_) (.inr ⟨c, bytes, rfl, hholds⟩)
  refine or_congr_right (and_congr_right fun _ => ⟨?_, ?_⟩)
  · rintro rfl
    exact ⟨c, rfl, hholds⟩
  · rintro ⟨c', hc', hb⟩
    obtain ⟨-, rfl⟩ := File.virtualFile.inj hc'
    exact hb.unique hholds

end NewChild

end Unpacked

namespace Initfs

open Vfs

variable {v : Vfs} {base : ℕ} {files : List CStr → List UInt8 → Prop} {dirs : List CStr → Prop} {t : TarFile}
  {c : CStr} {g : ℕ}

lemma fileGet_of_ordinary (hv : v.Named) (hc : Ordinary c) : v.fileGet g c = v.child g c := by
  have hhead : c.head? ≠ some slash := fun h => hc.slash (mem_of_mem_head? h)
  have hcomp : components c = [c] := Paths.pieces_of_notMem hc.ne_nil hc.slash
  rw [fileGet_of_relative hhead, get_eq_walk hv c g hc.ne_nil, hcomp, walk]
  exact Paths.walk_singleton g c

lemma getOrCreate_eq {ds : List CStr} (h : Unpacked v base dirs files)
    (hds : dirs ds) (hg : v.walk base ds = some g) (hc : Ordinary c)
    (hfile : ∀ b, ¬ files (ds ++ [c]) b) :
    ∃ u next, getOrCreate v g c = (u, some next) ∧
      Unpacked u base (fun ns => dirs ns ∨ ns = ds ++ [c]) files ∧ v.Grows u ∧
      u.walk base (ds ++ [c]) = some next := by
  have hget := fileGet_of_ordinary h.named (g := g) hc
  rcases hchild : v.child g c with _ | next
  · obtain ⟨hnew, hu, hgrows, hwalk⟩ := h.newFolder hds hg hc hchild
    refine ⟨_, v.files.length, ?_, hu, hgrows, hwalk⟩
    rw [getOrCreate, hget, hchild]
    exact Prod.ext rfl hnew
  · have hwalk : v.walk base (ds ++ [c]) = some next := by
      rw [walk_snoc, hg, bind_some, hchild]
    have hpath : ∀ m ∈ ds ++ [c], Ordinary m := by
      intro m hm
      rcases mem_append.1 hm with hm | hm
      · exact h.ordinary ds hds m hm
      · rwa [mem_singleton.1 hm]
    have hdir : dirs (ds ++ [c]) := by
      rcases h.known _ _ hpath hwalk with hdir | ⟨b, hb⟩
      · exact hdir
      · exact absurd hb (hfile b)
    refine ⟨v, next, by rw [getOrCreate, hget, hchild], h.congr (fun ns => ?_) fun _ _ => .rfl, .refl v, hwalk⟩
    refine ⟨.inl, ?_⟩
    rintro (hns | rfl)
    · exact hns
    · exact hdir

lemma makeFolders_eq (rest : List UInt8) : ∀ (cs ds : List CStr) {v : Vfs} {g : ℕ}
    {dirs : List CStr → Prop}, Unpacked v base dirs files → dirs ds → v.walk base ds = some g →
      (∀ c ∈ cs, Ordinary c ∧ 0 ∉ c) → (∀ pre b, pre <+: cs → pre ≠ [] → ¬ files (ds ++ pre) b) →
      ∃ w g', makeFolders cs.length v g (nulJoin cs rest) = some (w, g', rest) ∧
        Unpacked w base (fun ns => dirs ns ∨ ∃ pre, pre <+: cs ∧ ns = ds ++ pre) files ∧
        v.Grows w ∧ w.walk base (ds ++ cs) = some g'
  | [], ds, v, g, dirs, h, hds, hg, _, _ => by
    refine ⟨v, g, rfl, h.congr (fun ns => ?_) fun _ _ => .rfl, .refl v, by rwa [append_nil]⟩
    refine ⟨.inl, ?_⟩
    rintro (hns | ⟨pre, hpre, rfl⟩)
    · exact hns
    · rwa [prefix_nil.1 hpre, append_nil]
  | c :: cs, ds, v, g, dirs, h, hds, hg, hcs, hfiles => by
    obtain ⟨hc, hnul⟩ := hcs c mem_cons_self
    obtain ⟨u, next, hu, hunpacked, hgrows, hwalk⟩ :=
      getOrCreate_eq h hds hg hc fun b => hfiles [c] b (by simp) (by simp)
    obtain ⟨w, g', hw, hwunpacked, hwgrows, hwwalk⟩ :=
      makeFolders_eq rest cs (ds ++ [c]) hunpacked (.inr rfl) hwalk
        (fun d hd => hcs d (mem_cons_of_mem _ hd)) fun pre b hpre _ => by
          rw [append_assoc, singleton_append]
          exact hfiles (c :: pre) b (by simpa using hpre) (by simp)
    refine ⟨w, g', ?_, hwunpacked.congr (fun ns => ?_) fun _ _ => .rfl, hgrows.trans hwgrows, ?_⟩
    · rw [length_cons, makeFolders, nulJoin, cstr_append hnul]
      simp only [bind_eq_bind, bind_some, hu]
      rw [← hw, ← singleton_append, ← append_assoc, drop_left' (by simp)]
    · constructor
      · rintro ((hns | rfl) | ⟨pre, hpre, rfl⟩)
        · exact .inl hns
        · exact .inr ⟨[c], by simp, rfl⟩
        · exact .inr ⟨c :: pre, by simpa using hpre, by simp⟩
      · rintro (hns | ⟨pre, hpre, rfl⟩)
        · exact .inl (.inl hns)
        · rcases prefix_cons_iff.1 hpre with rfl | ⟨t, rfl, ht⟩
          · rw [append_nil]
            exact .inl (.inl hds)
          · exact .inr ⟨t, ht, by simp⟩
    · rw [← hwwalk, append_assoc, singleton_append]

lemma drop_nulJoin (name rest : List UInt8) {k : ℕ} (hk : name.length < k) :
    (nulJoin (name.splitOn slash) rest).drop k = (name ++ 0 :: rest).drop k := by
  obtain ⟨split, hlen, hsplit⟩ := nulJoin_splitOn rest name
  have hname : name ++ 0 :: rest = (name ++ [0]) ++ rest := by simp
  have hsplit' : split.drop k = [] := drop_of_length_le (by omega)
  have hname' : (name ++ [0]).drop k = [] :=
    drop_of_length_le (by rw [length_append, length_singleton]; omega)
  rw [hsplit, hname, drop_append, drop_append, hsplit', hname', hlen, length_append, length_singleton]

lemma loadFile_eq (fresh : ℕ → ℕ → Chunk) {name rest : List UInt8} (bytes : List UInt8)
    (h : Unpacked v base dirs files) (hbase : dirs []) (hnul : 0 ∉ name)
    (hparts : ∀ c ∈ name.splitOn slash, Ordinary c)
    (hfiles : ∀ pre b, pre <+: name.splitOn slash → ¬ files pre b)
    (hdirs : ¬ dirs (name.splitOn slash)) (hbytes : bytes.length < 2 ^ 32)
    (hdata : ((name ++ 0 :: rest).drop headerSize).take bytes.length = bytes)
    (hlen : name.length < headerSize) :
    ∃ w tarFile, loadFile fresh v base (name ++ 0 :: rest) bytes.length = some (w, tarFile) ∧
      (∀ k, headerSize ≤ k → tarFile.drop k = (name ++ 0 :: rest).drop k) ∧
      Unpacked w base (fun ns => dirs ns ∨ ns <+: (name.splitOn slash).dropLast)
        (fun ns b => files ns b ∨ ns = name.splitOn slash ∧ b = bytes) ∧ v.Grows w := by
  obtain ⟨cs, last, hsplit⟩ : ∃ cs last, name.splitOn slash = cs ++ [last] :=
    ⟨_, _, (dropLast_append_getLast (splitOn_ne_nil slash name)).symm⟩
  have hzero : ∀ c ∈ cs ++ [last], 0 ∉ c := fun c hc h0 => hnul (Paths.of_mem_splitOn (hsplit ▸ hc) 0 h0).2
  have htail : ∀ k, headerSize ≤ k → (nulJoin (name.splitOn slash) rest).drop k = (name ++ 0 :: rest).drop k :=
    fun k hk => drop_nulJoin name rest (by omega)
  have hname := splitFilename_append rest hnul
  rw [hsplit] at hparts hfiles hdirs hname htail ⊢
  obtain ⟨u, g, hu, hunpacked, hugrows, hwalk⟩ :=
    makeFolders_eq (nulJoin [last] rest) cs [] h hbase rfl
      (fun c hc => ⟨hparts c (by simp [hc]), hzero c (by simp [hc])⟩)
      (fun pre b hpre _ => hfiles pre b (hpre.trans (prefix_append cs [last])))
  rw [nil_append] at hwalk
  have hlast : Ordinary last := hparts last (by simp)
  have hfree : u.child g last = none := by
    rcases hchild : u.child g last with _ | f
    · rfl
    have hfound : u.walk base (cs ++ [last]) = some f := by rw [walk_snoc, hwalk, bind_some, hchild]
    rcases hunpacked.known _ _ hparts hfound with (hdir | ⟨pre, hpre, hcs⟩) | ⟨b, hb⟩
    · exact absurd hdir hdirs
    · have := hpre.length_le
      rw [nil_append] at hcs
      rw [← hcs, length_append, length_singleton] at this
      omega
    · exact absurd hb (hfiles _ b (prefix_refl _))
  obtain ⟨hnew, w, hw, hwunpacked, hwgrows⟩ :=
    hunpacked.newFile (.inr ⟨cs, prefix_refl cs, rfl⟩) hwalk hlast hfree fresh hbytes
  refine ⟨w, nulJoin (cs ++ [last]) rest, ?_, htail, hwunpacked.congr (fun ns => ?_) fun _ _ => .rfl,
    hugrows.trans hwgrows⟩
  · have hmake : makeTarfsFile v base (cs ++ [last]).length (nulJoin (cs ++ [last]) rest) =
        some ((u.create g last 0).1, u.files.length) := by
      rw [makeTarfsFile, length_append, length_singleton, Nat.add_sub_cancel, nulJoin_append, hu]
      simp only [bind_eq_bind, bind_some, nulJoin]
      rw [cstr_append (hzero last (by simp))]
      simp only [bind_some, hnew]
      rfl
    rw [loadFile, hname]
    simp only [bind_eq_bind, bind_some, hmake, htail headerSize (Nat.le_refl _), hdata, hw]
    rfl
  · simp

def folders (ts : List TarFile) (ns : List CStr) : Prop :=
  ns = [] ∨ ∃ t ∈ ts, ns <+: (t.name.splitOn slash).dropLast

def contents (ts : List TarFile) (ns : List CStr) (bytes : List UInt8) : Prop :=
  ∃ t ∈ ts, ns = t.name.splitOn slash ∧ bytes = t.content

/-- The names are distinct, and none is a folder on the way to another. -/
structure Compatible (ts : List TarFile) : Prop where
  distinct : (ts.map TarFile.name).Nodup
  apart : ∀ t ∈ ts, ∀ u ∈ ts, ∀ rest, u.name ≠ t.name ++ slash :: rest

lemma eq_or_of_splitOn_prefix {a b : CStr} (h : a.splitOn slash <+: b.splitOn slash) :
    a = b ∨ ∃ rest, b = a ++ slash :: rest := by
  obtain ⟨more, hmore⟩ := h
  have ha : [slash].intercalate (a.splitOn slash) = a := intercalate_splitOn slash
  have hb : [slash].intercalate (b.splitOn slash) = b := intercalate_splitOn slash
  rcases more with _ | ⟨m, ms⟩
  · left
    rw [← ha, ← hb, ← hmore, append_nil]
  right
  refine ⟨[slash].intercalate (m :: ms), ?_⟩
  have hfree : ∀ c ∈ m :: ms, slash ∉ c := fun c hc hs =>
    (Paths.of_mem_splitOn (hmore ▸ mem_append_right _ hc) slash hs).1 rfl
  have hsplit : (a ++ slash :: [slash].intercalate (m :: ms)).splitOn slash = b.splitOn slash := by
    rw [splitOn_append_cons_self, splitOn_intercalate slash hfree (by simp), hmore]
  rw [← hb, ← hsplit, intercalate_splitOn]

lemma ordinary_of_proper (h : t.Proper) : ∀ c ∈ t.name.splitOn slash, Ordinary c :=
  fun c hc => ⟨(h.parts c hc).1, fun hs => (Paths.of_mem_splitOn hc slash hs).1 rfl, (h.parts c hc).2.1,
    (h.parts c hc).2.2⟩

section Header

structure Member (t : TarFile) (archive rest : List UInt8) : Prop where
  magic : strcmp (archive.drop 257) oldgnuMagic = some 0
  size : ∃ r, strtol (archive.drop 124) 8 = some (ofNat t.content.length, r)
  name : ∃ r, archive = t.name ++ 0 :: r
  data : (archive.drop headerSize).take t.content.length = t.content
  next : archive.drop (headerSize * ((t.content.length + 511) / 512 + 1)) = rest

lemma member_of_header {header padding : List UInt8} (rest : List UInt8) (ht : t.Proper)
    (h : t.IsHeader header) (hpad : padding.length < headerSize)
    (hblocks : (t.content ++ padding).length % headerSize = 0) :
    Member t (header ++ (t.content ++ padding ++ rest)) rest := by
  have hlen := h.length
  have hsize := ht.size
  unfold headerSize at hlen hpad hblocks
  obtain ⟨rname, hname⟩ := h.name
  obtain ⟨rsize, hoctal⟩ := h.size
  obtain ⟨rmagic, hmagic⟩ := h.magic
  refine ⟨?_, ?_, ?_, ?_, ?_⟩
  · rw [drop_append_of_le_length (by omega), ← hmagic, oldgnuMagic, append_assoc, append_assoc, singleton_append]
    exact strcmp_self (by decide)
  · refine ⟨0 :: (rsize ++ (t.content ++ padding ++ rest)), ?_⟩
    rw [drop_append_of_le_length (by omega), ← hoctal, append_assoc, append_assoc, singleton_append]
    exact strtol_octal (by omega) _
  · exact ⟨rname ++ (t.content ++ padding ++ rest), by rw [← hname]; simp⟩
  · rw [headerSize, drop_left' hlen, append_assoc, take_left]
  · have hoffset : headerSize * ((t.content.length + 511) / 512 + 1) =
        header.length + (t.content ++ padding).length := by
      rw [headerSize, hlen]
      rw [length_append] at hblocks ⊢
      omega
    rw [hoffset, ← append_assoc, ← length_append, drop_left]

lemma size_of_proper (ht : t.Proper) : 0 < (ofNat t.content.length).toInt32 ∧
      (ofNat t.content.length).toNat = t.content.length ∧
      ((ofNat t.content.length + ofNat headerSize - 1) / ofNat headerSize).toNat = (t.content.length + 511) / 512 := by
  have hsize := ht.size
  have hpos := length_pos_of_ne_nil ht.content
  have hnat : (ofNat t.content.length).toNat = t.content.length := by
    rw [toNat_ofNat']
    omega
  have hadd : (ofNat t.content.length + ofNat headerSize - 1).toNat = t.content.length + 511 := by
    rw [UInt32.toNat_sub, UInt32.toNat_add, hnat, headerSize]
    simp only [toNat_ofNat', toNat_one]
    omega
  refine ⟨?_, hnat, ?_⟩
  · rw [Int32.lt_iff_toInt_lt]
    have hint : (ofNat t.content.length).toInt32.toInt = t.content.length := by
      change (ofNat t.content.length).toBitVec.toInt = _
      rw [BitVec.toInt_eq_toNat_of_lt]
      · rw [toNat_toBitVec, hnat]
      · rw [toNat_toBitVec, hnat]
        omega
    rw [hint]
    exact Int.natCast_pos.2 hpos
  · rw [UInt32.toNat_div, hadd, headerSize]
    rfl

end Header

lemma loadFiles_eq (fresh : ℕ → ℕ → Chunk) : ∀ (ts done : List TarFile) {v : Vfs} {n : ℕ}
    {archive : List UInt8}, Unpacked v base (folders done) (contents done) →
      Compatible (done ++ ts) → (∀ t ∈ ts, t.Proper) → TarFile.Encodes ts archive → ts.length < n →
      ∃ w, loadFiles fresh n v base archive = some w ∧
        Unpacked w base (folders (done ++ ts)) (contents (done ++ ts)) ∧ v.Grows w
  | [], done, v, 0, archive, _, _, _, _, hn => absurd hn (Nat.not_lt_zero _)
  | t :: ts, done, v, 0, archive, _, _, _, _, hn => absurd hn (Nat.not_lt_zero _)
  | [], done, v, n + 1, archive, h, _, _, henc, _ => by
    obtain ⟨rest, rfl⟩ := henc
    refine ⟨v, ?_, by rwa [append_nil], .refl v⟩
    have hmagic : strcmp ((List.replicate headerSize 0 ++ rest).drop 257) oldgnuMagic = some (-117) := by rfl
    rw [loadFiles, hmagic]
    rfl
  | t :: ts, done, v, n + 1, archive, h, hcompat, hproper, henc, hn => by
    obtain ⟨header, padding, rest, harchive, hheader, hpad, hblocks, hrest⟩ := henc
    have ht := hproper t mem_cons_self
    have hmember := member_of_header rest ht hheader hpad hblocks
    rw [← harchive] at hmember
    obtain ⟨hmagic, ⟨_, hsize⟩, ⟨rname, hname⟩, hdata, hnext⟩ := hmember
    obtain ⟨hpos, hnat, hoffset⟩ := size_of_proper ht
    -- the names of the members before this one are neither it nor a folder of it
    have hother : ∀ u ∈ done, ¬ u.name.splitOn slash <+: t.name.splitOn slash ∧
        ¬ t.name.splitOn slash <+: u.name.splitOn slash := by
      intro u hu
      have htmem : t ∈ done ++ t :: ts := by simp
      have humem : u ∈ done ++ t :: ts := by simp [hu]
      have hne : u.name ≠ t.name := by
        have hnodup := hcompat.distinct
        rw [map_append, map_cons] at hnodup
        exact (nodup_append.1 hnodup).2.2 _ (List.mem_map_of_mem hu) _ mem_cons_self
      refine ⟨fun hpre => ?_, fun hpre => ?_⟩
      · rcases eq_or_of_splitOn_prefix hpre with heq | ⟨rest, hrest⟩
        · exact hne heq
        · exact hcompat.apart u humem t htmem rest hrest
      · rcases eq_or_of_splitOn_prefix hpre with heq | ⟨rest, hrest⟩
        · exact hne heq.symm
        · exact hcompat.apart t htmem u humem rest hrest
    obtain ⟨u, tarFile, hload, htail, hunpacked, hgrows⟩ :=
      loadFile_eq fresh t.content h (.inl rfl) ht.nul (ordinary_of_proper ht) (by
          rintro pre b hpre ⟨u, hu, rfl, -⟩
          exact (hother u hu).1 hpre)
        (by
          rintro (hnil | ⟨u, hu, hpre⟩)
          · exact splitOn_ne_nil slash t.name hnil
          · exact (hother u hu).2 (hpre.trans ( dropLast_prefix _)))
        (by have := ht.size; omega) (hname ▸ hdata) (by have := ht.length; unfold headerSize; omega)
    rw [← hname] at hload htail
    have hdone : Unpacked u base (folders (done ++ [t])) (contents (done ++ [t])) := by
      refine hunpacked.congr (fun ns => ?_) fun ns b => ?_
      · simp only [folders, mem_append, mem_singleton, or_and_right, exists_or, exists_eq_left, or_assoc]
      · simp only [contents, mem_append, mem_singleton, or_and_right, exists_or, exists_eq_left]
    have happend : done ++ [t] ++ ts = done ++ t :: ts := by simp
    obtain ⟨w, hw, hwunpacked, hwgrows⟩ := loadFiles_eq fresh ts (done ++ [t]) hdone
      (by rwa [happend]) (fun x hx => hproper x (mem_cons_of_mem t hx)) hrest
      (Nat.lt_of_succ_lt_succ hn)
    rw [happend] at hwunpacked
    refine ⟨w, ?_, hwunpacked, hgrows.trans hwgrows⟩
    rw [loadFiles, hmagic]
    simp only [bind_eq_bind, bind_some, ne_eq, not_true_eq_false, if_false, hsize, hpos, if_true, hnat, hload, hoffset]
    rw [htail _ (Nat.le_mul_of_pos_right _ (by omega)), hnext, hw]

section Root

lemma ordinary_initfs : Ordinary initfs := ⟨by decide, by decide, by decide, by decide⟩

lemma unpacked_initfs (hv : v.Named) (hroot : v.isFolder root = true) (hfree : v.child root initfs = none) :
    (v.create root initfs fileCreateDir).2 = some v.files.length ∧
      Unpacked (v.create root initfs fileCreateDir).1 v.files.length (folders []) (contents []) ∧
      (v.create root initfs fileCreateDir).1.child root initfs = some v.files.length := by
  have hopen := opened_of_isFolder hroot
  obtain ⟨hnew, hw⟩ := created_dir (by rw [hopen]; exact hroot)
    (show fileCreateDir &&& fileCreateDir ≠ 0 by decide)
  obtain ⟨hchildren, hname, hdot, hdotdot⟩ := hw.links
  refine ⟨hnew, ?_, ?_⟩
  · -- an ordinary path from the folder is empty
    have hnil : ∀ ns g, (∀ n ∈ ns, Ordinary n) →
        (v.create root initfs fileCreateDir).1.walk v.files.length ns = some g → ns = [] := by
      intro ns g hns hg
      rcases ns with _ | ⟨m, ms⟩
      · rfl
      rw [walk, Paths.walk_cons, ← Vfs.child, child_newFolder hw (hns m mem_cons_self)] at hg
      cases hg
    have hfolders : ∀ ns, folders [] ns → ns = [] := by
      rintro ns (rfl | ⟨t, ht, -⟩)
      · rfl
      · cases ht
    refine ⟨hw.named_newFolder hv ⟨ordinary_initfs.ne_nil, ordinary_initfs.slash⟩, fun ns hns => ?_, ?_,
      fun ns hns => ?_, ?_, fun ns g hord hg => .inl (.inl (hnil ns g hord hg)),
      fun ns ms g hns hms hg hg' => (hnil ns g hns hg).trans (hnil ms g hms hg').symm,
      fun ns g hns hg => ?_⟩
    · rw [hfolders ns hns]
      simp
    · rintro ns bytes ⟨t, ht, -⟩
      cases ht
    · rw [hfolders ns hns]
      have hself := hw.file 0
      rw [Nat.add_zero] at hself
      exact ⟨_, rfl, by rw [isFolder, hself]; rfl⟩
    · rintro ns bytes ⟨t, ht, -⟩
      cases ht
    · rw [hfolders ns hns] at hg
      cases hg
      rw [hchildren]
      simp [hdot, hdotdot, show dot ≠ dotdot by decide]
  · have happend := Paths.child_append initfs (by simpa using hw.children root (lt_of_isFolder hroot)) fun k hk =>
        hw.grows.name_eq (lt_of_mem_children hk)
    rw [Vfs.child] at hfree ⊢
    rw [happend, hfree, none_or, find?_cons_of_pos (by simp [hname])]

end Root

/-- A file of the archive is found below `/initfs` with its size and its bytes, and every part of its
name stands in its folder once. -/
structure Unpacks (w : Vfs) (t : TarFile) : Prop where
  file : ∃ f n c, w.fileGet root (slash :: (initfs ++ slash :: t.name)) = some f ∧
    w.files[w.opened f]? = some (.virtualFile n c) ∧ c.size.toNat = t.content.length ∧
    ∀ size pos : UInt32, pos.toNat + size.toNat < 2 ^ 32 →
      c.read size pos = some ((t.content.drop pos.toNat).take size.toNat)
  once : ∀ ns n ms, t.name.splitOn slash = ns ++ n :: ms → ∃ g, w.walk root (initfs :: ns) = some g ∧
    (w.children g).countP (fun c => decide (w.name c = n)) = 1

lemma unpacks_of_unpacked {w : Vfs} {ts : List TarFile}
    (h : Unpacked w base (folders ts) (contents ts)) (hbase : w.child root initfs = some base)
    (ht : t ∈ ts) (hproper : t.Proper) : Unpacks w t := by
  obtain ⟨f, n, c, hf, hfile, hholds⟩ := h.file (t.name.splitOn slash) t.content ⟨t, ht, rfl, rfl⟩
  have hroot : ∀ ns, w.walk root (initfs :: ns) = w.walk base ns := by
    intro ns
    rw [walk, Paths.walk_cons, ← Vfs.child, hbase]
    rfl
  have hcomp : components (slash :: (initfs ++ slash :: t.name)) = initfs :: t.name.splitOn slash := by
    have hparts : components t.name = t.name.splitOn slash :=
      filter_eq_self.2 fun d hd => by simpa using (hproper.parts d hd).1
    have hinitfs : components initfs = [initfs] :=
      Paths.pieces_of_notMem ordinary_initfs.ne_nil ordinary_initfs.slash
    rw [components, Paths.pieces_cons_self, ← components, components_append, hparts, hinitfs, singleton_append]
  refine ⟨⟨f, n, c, ?_, ?_, hholds.size, fun size pos hwrap => hholds.read hwrap⟩, ?_⟩
  · rw [fileGet_root, get_eq_walk h.named _ _ (by simp), hcomp, hroot, hf]
  · rw [opened_of_virtualFile hfile, hfile]
  · intro ns m ms hsplit
    have hdir : folders ts ns := by
      refine .inr ⟨t, ht, ?_⟩
      rw [hsplit, dropLast_append_of_ne_nil (by simp)]
      exact prefix_append ns _
    obtain ⟨g, hg, -⟩ := h.dir ns hdir
    refine ⟨g, by rw [hroot, hg], ?_⟩
    have hmem : m ∈ (w.children g).map w.name := by
      rw [hsplit, walk_append, hg, bind_some, walk, Paths.walk_cons] at hf
      obtain ⟨k, hk, -⟩ := bind_eq_some_iff.1 hf
      exact List.mem_map.2 ⟨k, Paths.child_mem hk, Paths.name_of_child hk⟩
    have hcount := count_eq_one_of_mem (h.once ns g hdir hg) hmem
    rw [List.count, countP_map] at hcount
    rw [← hcount]
    refine countP_congr fun k _ => ?_
    simp

lemma length_of_encodes : ∀ {ts : List TarFile} {archive : List UInt8}, TarFile.Encodes ts archive →
    ts.length < archive.length
  | [], archive, h => by
    have := h.length_le
    rw [length_replicate, headerSize] at this
    simp only [length_nil]
    omega
  | t :: ts, archive, h => by
    obtain ⟨header, padding, rest, rfl, hheader, -, -, hrest⟩ := h
    have ih := length_of_encodes hrest
    have hlen := hheader.length
    simp only [headerSize] at hlen
    simp only [length_cons, length_append]
    omega

theorem initfs_unpacks (fresh : ℕ → ℕ → Chunk) {ts : List TarFile} {archive : List UInt8}
    (hv : v.Named) (hroot : v.isFolder root = true) (hfree : v.child root initfs = none)
    (hproper : ∀ t ∈ ts, t.Proper) (hcompat : Compatible ts) (henc : TarFile.Encodes ts archive) :
    ∃ w, moduleLoad fresh v archive = some w ∧ ∀ t ∈ ts, Unpacks w t := by
  obtain ⟨hnew, hunpacked, hbase⟩ := unpacked_initfs hv hroot hfree
  obtain ⟨w, hw, hwunpacked, hgrows⟩ := loadFiles_eq fresh ts [] hunpacked hcompat hproper henc
    (Nat.lt_succ_of_lt (length_of_encodes henc))
  have hlt : root < (v.create root initfs fileCreateDir).1.files.length :=
    Nat.lt_of_lt_of_le (lt_of_isFolder hroot) (Grows.create v root initfs fileCreateDir).length_le
  refine ⟨w, ?_, fun t ht => unpacks_of_unpacked hwunpacked (hgrows.child hlt hbase) ht (hproper t ht)⟩
  rwa [moduleLoad, hnew]

def header (t : TarFile) : List UInt8 :=
  t.name ++ List.replicate (124 - t.name.length) 0 ++ (octal 11 t.content.length ++ [0]) ++
    List.replicate 121 0 ++ oldgnuMagic ++ List.replicate 247 0

def binShell : TarFile := ⟨chars ['b', 'i', 'n', '/', 's', 'h'], [1, 2, 3]⟩

def binInit : TarFile := ⟨chars ['b', 'i', 'n', '/', 'i', 'n', 'i', 't'], [4]⟩

def binArchive : List UInt8 :=
  header binShell ++ (binShell.content ++ List.replicate 509 0 ++
    (header binInit ++ (binInit.content ++ List.replicate 511 0 ++ List.replicate 512 0)))

theorem initfs_unpacks_binArchive : ∃ w, moduleLoad (fun _ _ _ => 0xCC) Vfs.init binArchive = some w ∧
    ∀ t ∈ [binShell, binInit], Unpacks w t := by
  have hproper : ∀ t ∈ [binShell, binInit], t.Proper := by
    intro t ht
    simp only [mem_cons, not_mem_nil, or_false] at ht
    rcases ht with rfl | rfl
    · exact ⟨by decide, by decide, by decide, by decide, by decide⟩
    · exact ⟨by decide, by decide, by decide, by decide, by decide⟩
  have hcompat : Compatible [binShell, binInit] := by
    have hno : ∀ t ∈ [binShell, binInit], ∀ u ∈ [binShell, binInit], ¬ (t.name ++ [slash]) <+: u.name := by decide
    exact ⟨by decide, fun t ht u hu rest h => hno t ht u hu ⟨rest, by rw [h]; simp⟩⟩
  have henc : TarFile.Encodes [binShell, binInit] binArchive := by
    refine ⟨header binShell, List.replicate 509 0, _, rfl, ?_, by decide +kernel,
      by decide +kernel, header binInit, List.replicate 511 0, _, rfl, ?_, by decide +kernel,
      by decide +kernel, prefix_refl _⟩
    · exact ⟨by decide +kernel, by decide +kernel, by decide +kernel, by decide +kernel⟩
    · exact ⟨by decide +kernel, by decide +kernel, by decide +kernel, by decide +kernel⟩
  exact initfs_unpacks _ init_named (by decide +kernel) (by decide +kernel) hproper hcompat henc

end Initfs

end OlliOS
