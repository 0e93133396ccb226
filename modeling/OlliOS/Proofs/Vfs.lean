import OlliOS.Vfs

/-!
# Search by path

For names without slashes the matcher of `_get` finds the first child whose name is the next component,
so `_get` is the walk along the components (`get_eq_walk`).
-/

namespace OlliOS.Vfs

open List Option

variable {v : Vfs}

section Opened

variable {f o : ℕ}

lemma original_lt (h : (v.files[f]?).bind File.original = some o) : o < f := by
  obtain ⟨g, hg, ho⟩ := bind_eq_some_iff.1 h
  exact v.back f g hg o ho

lemma follow_eq : ∀ {n m f : ℕ}, f ≤ n → f ≤ m → follow v.files n f = follow v.files m f
  | 0, 0, _, _, _ => rfl
  | n + 1, m + 1, f, hn, hm => by
    simp only [follow]
    split
    · rfl
    · rename_i o ho
      have := original_lt ho
      exact follow_eq (by omega) (by omega)
  | 0, m + 1, f, hn, _ => by
    obtain rfl : f = 0 := by omega
    simp only [follow]
    split
    · rfl
    · rename_i o ho
      exact absurd (original_lt ho) (Nat.not_lt_zero o)
  | n + 1, 0, f, _, hm => by
    obtain rfl : f = 0 := by omega
    simp only [follow]
    split
    · rfl
    · rename_i o ho
      exact absurd (original_lt ho) (Nat.not_lt_zero o)

lemma opened_of_none (h : (v.files[f]?).bind File.original = none) : v.opened f = f := by
  cases f with
  | zero => rfl
  | succ f => simp only [opened, follow, h]

lemma opened_of_some (h : (v.files[f]?).bind File.original = some o) : v.opened f = v.opened o := by
  have hlt := original_lt h
  cases f with
  | zero => exact absurd hlt (Nat.not_lt_zero o)
  | succ f =>
    simp only [opened, follow, h]
    exact follow_eq (by omega) (Nat.le_refl o)

lemma opened_le (v : Vfs) : ∀ f : ℕ, v.opened f ≤ f
  | f => by
    rcases h : (v.files[f]?).bind File.original with _ | o
    · exact Nat.le_of_eq (opened_of_none h)
    · have hlt := original_lt h
      rw [opened_of_some h]
      exact Nat.le_trans (opened_le v o) (Nat.le_of_lt hlt)

lemma original_opened (v : Vfs) : ∀ f : ℕ, (v.files[v.opened f]?).bind File.original = none
  | f => by
    rcases h : (v.files[f]?).bind File.original with _ | o
    · rw [opened_of_none h, h]
    · have hlt := original_lt h
      rw [opened_of_some h]
      exact original_opened v o

@[simp] lemma opened_opened (v : Vfs) (f : ℕ) : v.opened (v.opened f) = v.opened f :=
  opened_of_none (original_opened v f)

lemma children_eq_of_opened_eq {g : ℕ} (h : v.opened f = v.opened g) : v.children f = v.children g := by
  simp only [children, h]

lemma lt_of_mem_children {c : ℕ} (h : c ∈ v.children f) : c < v.files.length := by
  rcases hf : v.files[v.opened f]? with _ | g
  · simp [children, hf] at h
  · exact v.within _ g hf c (by simpa [children, hf] using h)

lemma named_of_files (h : ∀ g ∈ v.files, ∀ c ∈ g.children, v.name c ≠ [] ∧ slash ∉ v.name c) : v.Named := by
  intro f c hc
  rcases hf : v.files[v.opened f]? with _ | g
  · simp [children, hf] at hc
  · exact h g (mem_of_getElem? hf) c (by simpa [children, hf] using hc)

end Opened

section Match

lemma matchName_self : ∀ n : CStr, matchName n n = .whole
  | [] => rfl
  | c :: n => by simp [matchName, matchName_self n]

lemma matchName_append_slash (q : CStr) : ∀ n : CStr, matchName n (n ++ slash :: q) = .within (slash :: q)
  | [] => by simp [matchName]
  | c :: n => by simp [matchName, matchName_append_slash q n]

variable {rest : CStr}

lemma matchName_of_ne (hrest : rest = [] ∨ ∃ q, rest = slash :: q) :
    ∀ {n m : CStr}, slash ∉ n → slash ∉ m → n ≠ m → matchName n (m ++ rest) = .differs
  | [], [], _, _, h => absurd rfl h
  | [], c :: m, _, hm, _ => by
    have hc : c ≠ slash := fun h => hm (by simp [h])
    simp [matchName, hc]
  | a :: n, [], hn, _, _ => by
    have ha : slash ≠ a := fun h => hn (by simp [h])
    rcases hrest with rfl | ⟨q, rfl⟩
    · simp [matchName]
    · simp [matchName, ha]
  | a :: n, c :: m, hn, hm, h => by
    by_cases hc : c = a
    · subst hc
      have hnm : n ≠ m := fun e => h (by rw [e])
      simp only [mem_cons, not_or] at hn hm
      simpa [matchName] using matchName_of_ne hrest hn.2 hm.2 hnm
    · simp [matchName, hc]

def componentMatch (rest : CStr) : NameMatch := if rest = [] then .whole else .within rest

lemma matchName_component (hrest : rest = [] ∨ ∃ q, rest = slash :: q) (n : CStr) :
    matchName n (n ++ rest) = componentMatch rest := by
  rcases hrest with rfl | ⟨q, rfl⟩
  · simp [matchName_self, componentMatch]
  · simp [matchName_append_slash, componentMatch]

lemma findMatch_component {m : CStr} (hm : slash ∉ m)
    (hrest : rest = [] ∨ ∃ q, rest = slash :: q) : ∀ {cs : List ℕ}, (∀ c ∈ cs, slash ∉ v.name c) →
      v.findMatch (m ++ rest) cs = (cs.find? fun c => decide (v.name c = m)).map fun c => (c, componentMatch rest)
  | [], _ => rfl
  | c :: cs, hcs => by
    have ih := findMatch_component hm hrest fun c hc => hcs c (mem_cons_of_mem _ hc)
    by_cases hname : v.name c = m
    · have hmatch := matchName_component hrest m
      rw [find?_cons_of_pos (by simpa using hname)]
      simp only [findMatch, findSome?_cons, hname, hmatch]
      unfold componentMatch
      split_ifs <;> rfl
    · have hmatch := matchName_of_ne hrest (hcs c mem_cons_self) hm hname
      rw [find?_cons_of_neg (by simpa using hname), ← ih]
      simp only [findMatch, findSome?_cons, hmatch]

end Match

section Skip

lemma components_of_skipSlashes_none : ∀ {p : CStr}, skipSlashes p = none → components p = []
  | [], h => by simp [skipSlashes] at h
  | c :: cs, h => by
    simp only [skipSlashes] at h
    split_ifs at h with hc hcs
    · subst hc hcs
      simp [components]
    · subst hc
      rw [components, Paths.pieces_cons_self]
      exact components_of_skipSlashes_none h

lemma components_of_skipSlashes_some : ∀ {p s : CStr}, skipSlashes p = some s →
    components p = components s ∧ (p ≠ [] → s ≠ [])
  | [], s, h => by
    cases h
    exact ⟨rfl, id⟩
  | c :: cs, s, h => by
    simp only [skipSlashes] at h
    split_ifs at h with hc hcs
    · subst hc
      obtain ⟨hcomp, hne⟩ := components_of_skipSlashes_some h
      exact ⟨hcomp, fun _ => hne hcs⟩
    · cases h
      exact ⟨rfl, id⟩

end Skip

section Get

variable {p q : CStr} {f : ℕ}

lemma get_of_skipSlashes_none (h : skipSlashes p = none) : v.get f p = some f := by
  rw [get]
  split
  · rfl
  · rename_i hs
    cases h.symm.trans hs

def matched (v : Vfs) (r : ℕ × NameMatch) : Option ℕ :=
  match r.2 with
  | .differs => none
  | .whole => some r.1
  | .within rest => v.get r.1 rest

lemma get_of_skipSlashes_some {s : CStr} (h : skipSlashes p = some s) :
    v.get f p = (v.findMatch s (v.children f)).bind v.matched := by
  rw [get]
  split
  · rename_i hs
    cases h.symm.trans hs
  · rename_i s' hs
    obtain rfl : s = s' := some.inj (h.symm.trans hs)
    split
    all_goals rename_i hm
    all_goals simp [hm, matched]

lemma get_eq_walk (hv : v.Named) : ∀ (p : CStr) (f : ℕ), p ≠ [] → v.get f p = v.walk f (components p)
  | p, f, hp => by
    rcases hs : skipSlashes p with _ | s
    · rw [get_of_skipSlashes_none hs, components_of_skipSlashes_none hs]
      rfl
    obtain ⟨hlen, hhead⟩ := skipSlashes_eq_some hs
    obtain ⟨hcomp, hne⟩ := components_of_skipSlashes_some hs
    obtain ⟨m, rest, rfl, hm, hrest⟩ := Paths.exists_first_piece slash s
    have hm' : m ≠ [] := by
      rintro rfl
      rcases hrest with rfl | ⟨q, rfl⟩
      · exact hne hp rfl
      · exact hhead rfl
    have hpieces : components (m ++ rest) = m :: components rest := Paths.pieces_append_of_notMem hm' hm hrest
    have hlt : rest.length < p.length := by
      have := length_pos_of_ne_nil hm'
      simp only [length_append] at hlen
      omega
    rw [get_of_skipSlashes_some hs, findMatch_component hm hrest fun c hc => (hv f c hc).2, hcomp,
      hpieces, walk, Paths.walk_cons, Paths.child]
    rcases (v.children f).find? fun c => decide (v.name c = m) with _ | c
    · rfl
    · by_cases hrest' : rest = []
      · subst hrest'
        simp [matched, componentMatch, components]
      · have ih := get_eq_walk hv rest c hrest'
        simpa [matched, componentMatch, hrest', walk] using ih
  termination_by p => p.length

lemma components_append (p q : CStr) : components (p ++ slash :: q) = components p ++ components q :=
  Paths.pieces_append slash p q

lemma walk_append (f : ℕ) (ns ms : List CStr) : v.walk f (ns ++ ms) = (v.walk f ns).bind (v.walk · ms) :=
  Paths.walk_append f ns ms

lemma get_append (hv : v.Named) (hp : p ≠ []) (hq : q ≠ []) (f : ℕ) :
    v.get f (p ++ slash :: q) = (v.get f p).bind (v.get · q) := by
  have hwalk : (v.get · q) = (v.walk · (components q)) := funext fun g => get_eq_walk hv q g hq
  rw [get_eq_walk hv _ _ (by simp), components_append, walk_append, get_eq_walk hv p f hp, hwalk]

lemma get_append_of_getLast (hv : v.Named) (hlast : p.getLast? = some slash)
    (hq : q ≠ []) (f : ℕ) : v.get f (p ++ q) = (v.get f p).bind (v.get · q) := by
  obtain ⟨p', rfl⟩ := getLast?_eq_some_iff.1 hlast
  have hwalk : (v.get · q) = (v.walk · (components q)) := funext fun g => get_eq_walk hv q g hq
  have hend : components (p' ++ [slash]) = components p' := by
    simpa [components] using components_append p' []
  rw [append_assoc, singleton_append, get_eq_walk hv _ _ (by simp), components_append,
    walk_append, get_eq_walk hv (p' ++ [slash]) f (by simp), hend, hwalk]

lemma fileGet_of_relative (h : p.head? ≠ some slash) : v.fileGet f p = v.get f p := by simp [fileGet, h]

lemma fileGet_root (p : CStr) : v.fileGet root p = v.get root p := by simp [fileGet]

end Get

/-- A path and a path behind it are searched one after the other. Opening a file from a working directory,
executing it and changing to it find the same file. -/
structure Composes (v : Vfs) (f : ℕ) : Prop where
  append : ∀ p q : CStr, p ≠ [] → p.head? ≠ some slash → q ≠ [] →
    v.get f (p ++ slash :: q) = (v.get f p).bind (v.get · q)
  walk : ∀ p : CStr, p ≠ [] → p.head? ≠ some slash → v.get f p = v.walk f (components p)
  relative : ∀ (before : UInt8) (wd r : CStr) (g : ℕ), wd.head? = some slash →
    v.fileGet root wd = some g → r ≠ [] → r.head? ≠ some slash → v.fileGet root (wd ++ slash :: r) = v.fileGet g r ∧
      v.fileGet root (newDir before wd r) = v.fileGet g r ∧
      v.openedFile wd r = v.fileGet g r ∧ v.executedFile wd r = v.fileGet g r

theorem get_composes (hv : v.Named) (f : ℕ) : v.Composes f := by
  refine ⟨fun p q hp _ hq => get_append hv hp hq f, fun p hp _ => get_eq_walk hv p f hp, ?_⟩
  intro before wd r g hwd hg hr hrel
  have hwd' : wd ≠ [] := by
    rintro rfl
    simp at hwd
  rw [fileGet_root] at hg
  have hslash : v.get root (wd ++ slash :: r) = v.get g r := by rw [get_append hv hwd' hr, hg, bind_some]
  refine ⟨?_, ?_, ?_, ?_⟩
  · rw [fileGet_root, fileGet_of_relative hrel, hslash]
  · rw [fileGet_root, fileGet_of_relative hrel, newDir, if_neg hrel]
    split_ifs with hlast
    · exact hslash
    · rcases hb : wd.getLast? with _ | b
      · exact absurd (getLast?_eq_none_iff.1 hb) hwd'
      · rw [hb, getD_some, not_not] at hlast
        rw [get_append_of_getLast hv (hlast ▸ hb) hr, hg, bind_some]
  · rw [openedFile, fileGet_root, hg, bind_some]
  · rw [executedFile, if_neg hrel, fileGet_root, hg, bind_some]

def devTree : Vfs :=
  ((init.create root (chars ['d', 'e', 'v']) fileCreateDir).1.create 3 (chars ['v', 'g', 'a']) 0).1

lemma devTree_named : devTree.Named := named_of_files (by decide)

theorem get_composes_devTree :
    devTree.get 3 (chars ['.', '.', '/', 'd', 'e', 'v'] ++ slash :: chars ['/', 'v', 'g', 'a', '/']) =
      some 6 ∧ devTree.Composes 3 := by
  have h := get_composes devTree_named 3
  refine ⟨?_, h⟩
  rw [h.walk _ (by decide) (by decide)]
  decide

end OlliOS.Vfs
