import OlliOS.Proofs.VfsRun

/-!
# Down and up again

A step down to a child and up by `..` is no step at all if the `..` of the child leads back, as it does for
every folder that `create` has made under a name of its own.
-/

namespace OlliOS.Vfs

open Stepping Option Paths

def SameFile (v : Vfs) (f g : Option ℕ) : Prop := f.map v.opened = g.map v.opened

/-- Down to the child of that name and up again, every path leads to the same file as before. -/
def DotDotInverts (v : Vfs) (d : ℕ) (n : CStr) : Prop := ∀ q : CStr, q ≠ [] →
  v.SameFile (v.get d (n ++ slash :: (dotdot ++ slash :: q))) (v.get d q) ∧
    (components q ≠ [] → v.get d (n ++ slash :: (dotdot ++ slash :: q)) = v.get d q)

def LeadsBack (v : Vfs) (d : ℕ) (n : CStr) : Prop :=
  ∃ c x, v.child d n = some c ∧ v.child c dotdot = some x ∧ v.opened x = v.opened d

variable {v w : Vfs} {d : ℕ} {n : CStr}

section Iff

lemma get_downUp (hv : v.Named) (hn : n ≠ []) (hslash : slash ∉ n) (q : CStr) (d : ℕ) :
    v.get d (n ++ slash :: (dotdot ++ slash :: q)) =
      ((v.child d n).bind (v.child · dotdot)).bind (v.walk · (components q)) := by
  have hcomp : components (n ++ slash :: (dotdot ++ slash :: q)) = [n] ++ ([dotdot] ++ components q) := by
    rw [components_append, components_append]
    congr 1
    · exact pieces_of_notMem hn hslash
  have hsingle : ∀ m f, v.walk f [m] = v.child f m := fun m f => walk_singleton f m
  rw [get_eq_walk hv _ _ (by simp), hcomp, walk_append, hsingle, bind_assoc]
  refine congrArg _ (funext fun c => ?_)
  rw [walk_append, hsingle]

lemma walk_cons_of_opened_eq {x : ℕ} (h : v.opened x = v.opened d) (m : CStr) (ms : List CStr) :
    v.walk x (m :: ms) = v.walk d (m :: ms) := by
  rw [walk, walk, Paths.walk_cons, Paths.walk_cons, Paths.child, Paths.child, children_eq_of_opened_eq h]

lemma dotDotInverts_iff (hv : v.Named) (hn : n ≠ []) (hslash : slash ∉ n) :
    v.DotDotInverts d n ↔ v.LeadsBack d n := by
  constructor
  · -- the path of one slash ends in the `..` itself
    intro h
    have hup := (h [slash] (by simp)).1
    have hnone : components [slash] = [] := by decide
    rw [get_downUp hv hn hslash, get_eq_walk hv [slash] d (by simp), hnone] at hup
    obtain ⟨x, hx, hback⟩ := map_eq_some_iff.1 (hup : _ = some (v.opened d))
    obtain ⟨y, hy, hxy⟩ := bind_eq_some_iff.1 hx
    obtain rfl := some.inj hxy
    obtain ⟨c, hc, hcy⟩ := bind_eq_some_iff.1 hy
    exact ⟨c, y, hc, hcy, hback⟩
  · rintro ⟨c, x, hc, hx, hback⟩ q hq
    rw [get_downUp hv hn hslash, hc, bind_some, hx, bind_some, get_eq_walk hv q d hq]
    rcases hcomp : components q with _ | ⟨m, ms⟩
    · exact ⟨congrArg some hback, fun h => absurd rfl h⟩
    · have hsame := walk_cons_of_opened_eq hback m ms
      exact ⟨congrArg _ hsame, fun _ => hsame⟩

end Iff

section Create

lemma Grows.child (h : v.Grows w) (hd : d < v.files.length) {c : ℕ} (hc : v.child d n = some c) :
    w.child d n = some c := by
  obtain ⟨more, hmore⟩ := h.children_prefix hd
  have happend := child_append n hmore.symm fun k hk => h.name_eq (lt_of_mem_children hk)
  rw [Vfs.child] at hc ⊢
  rw [happend, hc, some_or]

lemma LeadsBack.grows (h : v.LeadsBack d n) (hd : d < v.files.length) (hg : v.Grows w) : w.LeadsBack d n := by
  obtain ⟨c, x, hc, hx, hback⟩ := h
  have hlt := lt_of_mem_children (child_mem hc)
  refine ⟨c, x, hg.child hd hc, hg.child hlt hx, ?_⟩
  rw [hg.opened_eq (lt_of_mem_children (child_mem hx)), hg.opened_eq hd, hback]

lemma leadsBack_of_create {flags : UInt32} (hfolder : v.isFolder (v.opened d) = true)
    (hdir : flags &&& fileCreateDir ≠ 0) (hfree : v.child d n = none) :
    (v.create d n flags).1.LeadsBack d n := by
  have hd := lt_of_isFolder_opened hfolder
  obtain ⟨-, hw⟩ := created_dir hfolder hdir
  obtain ⟨hchildren, hname, hdot, hdotdot⟩ := hw.links
  have hlink := hw.file 2
  refine ⟨v.files.length, v.files.length + 2, ?_, ?_, ?_⟩
  · have happend := child_append n (by simpa using hw.children d hd) fun k hk =>
      hw.grows.name_eq (lt_of_mem_children hk)
    rw [Vfs.child] at hfree ⊢
    rw [happend, hfree, none_or, List.find?_cons_of_pos]
    simp [hname]
  · have hne : dot ≠ dotdot := by decide
    rw [Vfs.child, Paths.child, hchildren, List.find?_cons_of_neg (by simpa [hdot] using hne),
      List.find?_cons_of_pos (by simp [hdotdot])]
  · rw [opened_of_some (by rw [hlink]; rfl), hw.grows.opened_eq hd,
      hw.grows.opened_eq (lt_of_isFolder hfolder), opened_opened]

end Create

/-- A step down to a child and up by `..` is undone where the `..` leads back, and nowhere else. It does
for a folder that is created under a name which is free, in every state after. -/
structure DotDotLaw (v : Vfs) : Prop where
  inverts_iff : ∀ d, ∀ c ∈ v.children d, v.DotDotInverts d (v.name c) ↔ v.LeadsBack d (v.name c)
  created : ∀ d n flags, v.isFolder (v.opened d) = true → flags &&& fileCreateDir ≠ 0 →
    v.child d n = none → ∀ w, Reaches Vfs.step Any (v.create d n flags).1 w → w.Named → w.DotDotInverts d n

theorem dotdot_law (hv : v.Named) : v.DotDotLaw := by
  refine ⟨fun d c hc => dotDotInverts_iff hv (hv d c hc).1 (hv d c hc).2, ?_⟩
  intro d n flags hfolder hdir hfree w hw hnamed
  have hd : d < (v.create d n flags).1.files.length :=
    Nat.lt_of_lt_of_le (lt_of_isFolder_opened hfolder) (Grows.create v d n flags).length_le
  have hback : w.LeadsBack d n := (leadsBack_of_create hfolder hdir hfree).grows hd (.reaches hw)
  have ⟨c, _, hc, _, _⟩ := hback
  have hname : w.name c = n := name_of_child hc
  have hproper := hnamed d c (child_mem hc)
  rw [hname] at hproper
  exact (dotDotInverts_iff hnamed hproper.1 hproper.2).2 hback

lemma init_named : init.Named := named_of_files (by decide +kernel)

theorem dotdot_law_devTree : init.DotDotLaw ∧ devTree.DotDotInverts root (chars ['d', 'e', 'v']) := by
  have h := dotdot_law init_named
  have hrun : Reaches Vfs.step Any (init.create root (chars ['d', 'e', 'v']) fileCreateDir).1 devTree :=
    (Reaches.refl _).tail (a := .create 3 (chars ['v', 'g', 'a']) 0) trivial rfl
  exact ⟨h, h.created root _ fileCreateDir (by decide +kernel) (by decide) (by decide +kernel) devTree
    hrun devTree_named⟩

def dirRecord (lba id : UInt8) : List UInt8 :=
  [34, 0, lba, 0, 0, 0, 0, 0, 0, lba, 0, 8, 0, 0, 0, 0, 8, 0, 0, 0, 0, 0, 0, 0, 0, 2, 0, 0, 1, 0, 0, 1, 1, id]

/-- The root directory is in sector 1, and an empty directory `D` of it in sector 2. -/
def image : Iso9660FileSystem where
  dev := fun pos =>
    if pos < 0x866 then
      (dirRecord 1 0 ++ dirRecord 1 1 ++ dirRecord 2 'D'.toUInt8).getD (pos - 0x800).toNat 0
    else if pos < 0x1000 then 0
    else if pos < 0x1044 then (dirRecord 2 0 ++ dirRecord 1 1).getD (pos - 0x1000).toNat 0
    else 0
  offset := 0
  primarydescriptor := List.replicate 158 0 ++ [1, 0, 0, 0, 0, 0, 0, 1, 0, 8, 0, 0]

/-- A folder that a driver has bound has no `..`, and the `..` of a directory of an image has no children.
-/
theorem dotdot_lost : (∃ v : Vfs, Reaches Vfs.step Any init v ∧ v.fileGet root (chars ['s', 'y', 's']) = some 3 ∧
      v.get 3 (chars ['p', 'c', 'i']) = some 8 ∧
      v.get 3 (chars ['a', 't', 'a', '/', '.', '.', '/', 'p', 'c', 'i']) = none) ∧
    ∃ v : Vfs, Reaches Vfs.step Any init v ∧ v.fileGet root (chars ['r', 'o', 'o', 't']) = some 3 ∧
      v.get 3 (chars ['D']) = some 6 ∧
      v.get 3 (chars ['D', '/', '.', '.', '/', 'D']) = none := by
  constructor
  · obtain ⟨v, hv, hn, h1, h2, h3⟩ : ∃ v : Vfs, Reaches Vfs.step Any init v ∧
        (∀ g ∈ v.files, ∀ c ∈ g.children, v.name c ≠ [] ∧ slash ∉ v.name c) ∧
        v.walk root (components (chars ['s', 'y', 's'])) = some 3 ∧
        v.walk 3 (components (chars ['p', 'c', 'i'])) = some 8 ∧
        v.walk 3 (components (chars ['a', 't', 'a', '/', '.', '.', '/', 'p', 'c', 'i'])) = none :=
      exists_of_run [.create root (chars ['s', 'y', 's']) fileCreateDir,
        .newFolder (chars ['a', 't', 'a']), .bind 3 6,
        .create 3 (chars ['p', 'c', 'i']) fileCreateDir] (by decide +kernel)
    have hnamed := named_of_files hn
    refine ⟨v, hv, ?_, ?_, ?_⟩
    · rw [fileGet_root, get_eq_walk hnamed _ _ (by decide), h1]
    · rw [get_eq_walk hnamed _ _ (by decide), h2]
    · rw [get_eq_walk hnamed _ _ (by decide), h3]
  · obtain ⟨v, hv, hn, h1, h2, h3⟩ : ∃ v : Vfs, Reaches Vfs.step Any init v ∧
        (∀ g ∈ v.files, ∀ c ∈ g.children, v.name c ≠ [] ∧ slash ∉ v.name c) ∧
        v.walk root (components (chars ['r', 'o', 'o', 't'])) = some 3 ∧
        v.walk 3 (components (chars ['D'])) = some 6 ∧
        v.walk 3 (components (chars ['D', '/', '.', '.', '/', 'D'])) = none :=
      exists_of_run [.mount image 2] (by decide +kernel)
    have hnamed := named_of_files hn
    refine ⟨v, hv, ?_, ?_, ?_⟩
    · rw [fileGet_root, get_eq_walk hnamed _ _ (by decide), h1]
    · rw [get_eq_walk hnamed _ _ (by decide), h2]
    · rw [get_eq_walk hnamed _ _ (by decide), h3]

end OlliOS.Vfs
