import OlliOS.Lib.Paths
import OlliOS.VirtualFile

/-!
# Files and paths

The objects behind a `File*` stand in a list and never move; a `File*` is a place in it, and `root` is the
first. A string is the list of its bytes before the terminating 0. `FileLink` and `FileView` pass calls on to
the file they are made from, which is there before they are. `_get` is the search by path.
-/

namespace OlliOS

/-- A `const char*`, up to the terminating 0. -/
abbrev CStr := List UInt8

def chars (s : List Char) : CStr := s.map Char.toUInt8

def slash : UInt8 := '/'.toUInt8

def dot : CStr := chars ['.']

def dotdot : CStr := chars ['.', '.']

/-- A `leaf` is a file that has no children and takes none: an `InterfaceFile`, a `Stream` or an
`ATADeviceFile`. -/
inductive File
  | virtualFolder (name : CStr) (children : List ℕ)
  | virtualFile (name : CStr) (content : VirtualFile)
  | fileLink (name : CStr) (original : ℕ)
  | fileView (name : CStr) (parent : ℕ)
  | iso9660File (name : CStr) (record : List UInt8) (children : List ℕ)
  | leaf (name : CStr)

namespace File

def name : File → CStr
  | virtualFolder name _ | virtualFile name _ | fileLink name _ | fileView name _
  | iso9660File name _ _ | leaf name => name

def original : File → Option ℕ
  | fileLink _ f | fileView _ f => some f
  | virtualFolder _ _ | virtualFile _ _ | iso9660File _ _ _ | leaf _ => none

def children : File → List ℕ
  | virtualFolder _ children | iso9660File _ _ children => children
  | virtualFile _ _ | fileLink _ _ | fileView _ _ | leaf _ => []

def isFolder : File → Bool
  | virtualFolder _ _ => true
  | virtualFile _ _ | fileLink _ _ | fileView _ _ | iso9660File _ _ _ | leaf _ => false

def addChild (child : ℕ) : File → File
  | virtualFolder name children => virtualFolder name (children ++ [child])
  | iso9660File name record children => iso9660File name record (children ++ [child])
  | virtualFile name content => virtualFile name content
  | fileLink name f => fileLink name f
  | fileView name f => fileView name f
  | leaf name => leaf name

def rename (name : CStr) : File → File
  | virtualFolder _ children => virtualFolder name children
  | virtualFile _ content => virtualFile name content
  | fileLink _ f => fileLink name f
  | fileView _ f => fileView name f
  | iso9660File _ record children => iso9660File name record children
  | leaf _ => leaf name

def setContent (content : VirtualFile) : File → File
  | virtualFile name _ => virtualFile name content
  | f => f

theorem original_addChild (child : ℕ) (f : File) : (f.addChild child).original = f.original := by
  cases f <;> rfl

theorem mem_children_addChild {child c : ℕ} {f : File} (h : c ∈ (f.addChild child).children) :
    c ∈ f.children ∨ c = child := by
  cases f <;> simp_all [addChild, children]

def Fresh (f : File) : Prop := f.original = none ∧ f.children = []

theorem fresh_virtualFolder (name : CStr) : (virtualFolder name []).Fresh := ⟨rfl, rfl⟩

theorem fresh_virtualFile (name : CStr) (content : VirtualFile) : (virtualFile name content).Fresh :=
  ⟨rfl, rfl⟩

theorem fresh_iso9660File (name : CStr) (record : List UInt8) : (iso9660File name record []).Fresh :=
  ⟨rfl, rfl⟩

theorem fresh_leaf (name : CStr) : (leaf name).Fresh := ⟨rfl, rfl⟩

theorem original_rename (name : CStr) (f : File) : (f.rename name).original = f.original := by cases f <;> rfl

theorem children_rename (name : CStr) (f : File) : (f.rename name).children = f.children := by cases f <;> rfl

theorem original_setContent (content : VirtualFile) (f : File) : (f.setContent content).original = f.original := by
  cases f <;> rfl

theorem children_setContent (content : VirtualFile) (f : File) : (f.setContent content).children = f.children := by
  cases f <;> rfl

end File

/-- The files there are. A file is made from files that are there before it, and its children are
there. -/
structure Vfs where
  files : List File
  back : ∀ (i : ℕ) (f : File), files[i]? = some f → ∀ o ∈ f.original, o < i
  within : ∀ (i : ℕ) (f : File), files[i]? = some f → ∀ c ∈ f.children, c < files.length

namespace Vfs

abbrev root : ℕ := 0

def name (v : Vfs) (f : ℕ) : CStr := (v.files[f]?).elim [] File.name

def follow (files : List File) : ℕ → ℕ → ℕ
  | 0, f => f
  | n + 1, f =>
    match (files[f]?).bind File.original with
    | none => f
    | some o => follow files n o

/-- The file whose own `open` is called in the end by `f->open()`. Each step goes to an earlier file. -/
def opened (v : Vfs) (f : ℕ) : ℕ := follow v.files f f

/-- What `next_child` of the handle that `f->open()` makes returns in turn. -/
def children (v : Vfs) (f : ℕ) : List ℕ := (v.files[v.opened f]?).elim [] File.children

section Get

/-- The slashes that `_get` skips; `none` if the path ends with them. -/
def skipSlashes : CStr → Option CStr
  | [] => some []
  | c :: cs => if c = slash then if cs = [] then none else skipSlashes cs else some (c :: cs)

inductive NameMatch
  | differs
  | whole
  | within (rest : CStr)

/-- The comparison of a child's name with the path, character by character. -/
def matchName : CStr → CStr → NameMatch
  | [], [] => .whole
  | [], c :: cs => if c = slash then .within (c :: cs) else .differs
  | _ :: _, [] => .differs
  | n :: ns, c :: cs => if c = n then matchName ns cs else .differs

def findMatch (v : Vfs) (subname : CStr) (children : List ℕ) : Option (ℕ × NameMatch) :=
  children.findSome? fun child =>
    match matchName (v.name child) subname with
    | .differs => none
    | m => some (child, m)

theorem length_of_matchName : ∀ {n p rest : CStr}, matchName n p = .within rest →
    rest.length ≤ p.length ∧ (p.head? ≠ some slash → rest.length < p.length)
  | [], [], rest, h => by simp [matchName] at h
  | [], c :: cs, rest, h => by
    simp only [matchName] at h
    split_ifs at h with hc
    obtain rfl := NameMatch.within.inj h
    exact ⟨Nat.le_refl _, fun hne => absurd (by simp [hc]) hne⟩
  | _ :: _, [], rest, h => by simp [matchName] at h
  | n :: ns, c :: cs, rest, h => by
    simp only [matchName] at h
    split_ifs at h with hc
    have := (length_of_matchName h).1
    simp only [List.length_cons]
    omega

theorem skipSlashes_eq_some : ∀ {p s : CStr}, skipSlashes p = some s → s.length ≤ p.length ∧ s.head? ≠ some slash
  | [], s, h => by
    cases h
    simp
  | c :: cs, s, h => by
    simp only [skipSlashes] at h
    split_ifs at h with hc hcs
    · obtain ⟨hlen, hhead⟩ := skipSlashes_eq_some h
      exact ⟨by simp only [List.length_cons]; omega, hhead⟩
    · cases h
      exact ⟨Nat.le_refl _, by simpa using hc⟩

theorem findMatch_eq_some {v : Vfs} {s : CStr} {cs : List ℕ} {c : ℕ} {m : NameMatch}
    (h : v.findMatch s cs = some (c, m)) : c ∈ cs ∧ matchName (v.name c) s = m := by
  obtain ⟨a, ha, hm⟩ := List.exists_of_findSome?_eq_some h
  split at hm
  · cases hm
  · cases hm
    exact ⟨ha, rfl⟩

def get (v : Vfs) (f : ℕ) (name : CStr) : Option ℕ :=
  match _hs : skipSlashes name with
  | none => some f
  | some subname =>
    match _hm : v.findMatch subname (v.children f) with
    | none => none
    | some (_, .differs) => none
    | some (child, .whole) => some child
    | some (child, .within rest) => v.get child rest
  termination_by name.length
  decreasing_by
    obtain ⟨hlen, hhead⟩ := skipSlashes_eq_some _hs
    have := (length_of_matchName (findMatch_eq_some _hm).2).2 hhead
    omega

def fileGet (v : Vfs) (this : ℕ) (name : CStr) : Option ℕ :=
  if name.head? = some slash ∧ this ≠ root then v.get root name else v.get this name

end Get

section Spec

/-- The parts of a path between the slashes, without the empty ones. -/
def components (p : CStr) : List CStr := Paths.pieces slash p

def child (v : Vfs) (f : ℕ) (n : CStr) : Option ℕ := Paths.child v.children v.name f n

def walk (v : Vfs) (f : ℕ) (ns : List CStr) : Option ℕ := Paths.walk v.children v.name f ns

def Named (v : Vfs) : Prop := ∀ f, ∀ c ∈ v.children f, v.name c ≠ [] ∧ slash ∉ v.name c

end Spec

section Make

def alloc (v : Vfs) (f : File) (ho : ∀ o ∈ f.original, o < v.files.length)
    (hc : ∀ c ∈ f.children, c < v.files.length) : Vfs where
  files := v.files ++ [f]
  back := by
    intro i g hg o hog
    rw [List.getElem?_append] at hg
    split_ifs at hg with hi
    · exact v.back i g hg o hog
    · obtain ⟨hi', rfl⟩ := List.getElem?_eq_some_iff.1 hg
      simp only [List.length_singleton, List.getElem_singleton] at hi' hog
      have := ho o hog
      omega
  within := by
    intro i g hg c hcg
    rw [List.length_append, List.length_singleton]
    rw [List.getElem?_append] at hg
    split_ifs at hg with hi
    · have := v.within i g hg c hcg
      omega
    · obtain ⟨hi', rfl⟩ := List.getElem?_eq_some_iff.1 hg
      simp only [List.length_singleton, List.getElem_singleton] at hi' hcg
      have := hc c hcg
      omega

/-- A change of the file `i` that leaves what it is made from, and adds no child but files that are
there. -/
def modify (v : Vfs) (i : ℕ) (g : File → File) (ho : ∀ f, (g f).original = f.original)
    (hc : ∀ f, ∀ c ∈ (g f).children, c ∈ f.children ∨ c < v.files.length) : Vfs where
  files := v.files.modify i g
  back := by
    intro j f hf o hof
    rw [List.getElem?_modify] at hf
    obtain ⟨f', hf', rfl⟩ := Option.map_eq_some_iff.1 hf
    split_ifs at hof with hij
    · exact v.back j f' hf' o (ho f' ▸ hof)
    · exact v.back j f' hf' o hof
  within := by
    intro j f hf c hcf
    rw [List.length_modify]
    rw [List.getElem?_modify] at hf
    obtain ⟨f', hf', rfl⟩ := Option.map_eq_some_iff.1 hf
    split_ifs at hcf with hij
    · rcases hc f' c hcf with h | h
      · exact v.within j f' hf' c h
      · exact h
    · exact v.within j f' hf' c hcf

def addChild (v : Vfs) (i child : ℕ) (h : child < v.files.length) : Vfs :=
  v.modify i (File.addChild child) (File.original_addChild child) fun _ _ hc =>
    (File.mem_children_addChild hc).imp_right fun e => lt_of_eq_of_lt e h

def rename (v : Vfs) (i : ℕ) (name : CStr) : Vfs :=
  v.modify i (File.rename name) (File.original_rename name) fun f _ hc =>
    .inl (File.children_rename name f ▸ hc)

def setContent (v : Vfs) (i : ℕ) (content : VirtualFile) : Vfs :=
  v.modify i (File.setContent content) (File.original_setContent content) fun f _ hc =>
    .inl (File.children_setContent content f ▸ hc)

@[simp] theorem files_alloc (v : Vfs) (f : File) (ho hc) : (v.alloc f ho hc).files = v.files ++ [f] := rfl

@[simp] theorem files_addChild (v : Vfs) (i child : ℕ) (h) :
    (v.addChild i child h).files = v.files.modify i (File.addChild child) := rfl

@[simp] theorem files_rename (v : Vfs) (i : ℕ) (name : CStr) :
    (v.rename i name).files = v.files.modify i (File.rename name) := rfl

@[simp] theorem files_setContent (v : Vfs) (i : ℕ) (content : VirtualFile) :
    (v.setContent i content).files = v.files.modify i (File.setContent content) := rfl

def newFile (v : Vfs) (f : File) (h : f.Fresh) : Vfs := v.alloc f (by simp [h.1]) (by simp [h.2])

@[simp] theorem files_newFile (v : Vfs) (f : File) (h) : (v.newFile f h).files = v.files ++ [f] := rfl

def newLink (v : Vfs) (name : CStr) (original : ℕ) (h : original < v.files.length) : Vfs :=
  v.alloc (.fileLink name original) (by simpa [File.original] using h) (by simp [File.children])

@[simp] theorem files_newLink (v : Vfs) (name : CStr) (original : ℕ) (h) :
    (v.newLink name original h).files = v.files ++ [.fileLink name original] := rfl

def newView (v : Vfs) (name : CStr) (parent : ℕ) (h : parent < v.files.length) : Vfs :=
  v.alloc (.fileView name parent) (by simpa [File.original] using h) (by simp [File.children])

theorem modify_append_cons (l t : List File) (a : File) (g : File → File) :
    (l ++ a :: t).modify l.length g = l ++ g a :: t := by
  simp [List.modify_eq_take_drop]

/-- `new VirtualFolder(name)`, which binds a link to itself. -/
def newFolder (v : Vfs) (name : CStr) : Vfs :=
  ((v.newFile (.virtualFolder name []) (File.fresh_virtualFolder name)).newLink dot v.files.length (by simp)).addChild
    v.files.length (v.files.length + 1) (by simp)

theorem files_newFolder (v : Vfs) (name : CStr) : (v.newFolder name).files =
    v.files ++ [.virtualFolder name [v.files.length + 1], .fileLink dot v.files.length] := by
  simp [newFolder, modify_append_cons, File.addChild]

def fileCreateDir : UInt32 := 0x1

def isFolder (v : Vfs) (f : ℕ) : Bool := (v.files[f]?).any File.isFolder

theorem lt_of_isFolder {v : Vfs} {f : ℕ} (h : v.isFolder f = true) : f < v.files.length := by
  by_contra hlt
  simp [isFolder, List.getElem?_eq_none (Nat.le_of_not_lt hlt)] at h

/-- `new VirtualFolder(name)`, and the link to `this` that is bound to it: the file
`v.files.length`. -/
def newSubfolder (v : Vfs) (this : ℕ) (name : CStr) (h : this < v.files.length) : Vfs :=
  ((v.newFolder name).newLink dotdot this (by simp [files_newFolder]; omega)).addChild
    v.files.length (v.files.length + 2) (by simp [files_newFolder])

theorem files_newSubfolder (v : Vfs) (this : ℕ) (name : CStr) (h) : (v.newSubfolder this name h).files = v.files ++
      [.virtualFolder name [v.files.length + 1, v.files.length + 2], .fileLink dot v.files.length,
        .fileLink dotdot this] := by
  simp [newSubfolder, files_newFolder, modify_append_cons, File.addChild]

/-- `f->create(name, flags)`. Only a `VirtualFolder` makes a file; all others return null. -/
def create (v : Vfs) (f : ℕ) (name : CStr) (flags : UInt32) : Vfs × Option ℕ :=
  if h : v.isFolder (v.opened f) = true then
    if flags &&& fileCreateDir ≠ 0 then
      ((v.newSubfolder (v.opened f) name (lt_of_isFolder h)).addChild (v.opened f) v.files.length
        (by simp [files_newSubfolder]), some v.files.length)
    else
      ((v.newFile (.virtualFile name .empty) (File.fresh_virtualFile name .empty)).addChild (v.opened f) v.files.length (by simp),
        some v.files.length)
  else (v, none)

/-- `f->bind(child)`. Only a `VirtualFolder` takes the child; all others return null. -/
def bind (v : Vfs) (f child : ℕ) (h : child < v.files.length) : Vfs × Option ℕ :=
  if v.isFolder (v.opened f) then (v.addChild (v.opened f) child h, some child) else (v, none)

def empty : Vfs := ⟨[], by simp, by simp⟩

def rootFolder : Vfs := newFolder empty []

theorem files_rootFolder : rootFolder.files = [.virtualFolder [] [1], .fileLink dot 0] := by
  simp [rootFolder, files_newFolder, empty]

def init : Vfs :=
  (rootFolder.newLink dotdot root (by simp [files_rootFolder])).addChild root 2 (by simp [files_rootFolder])

end Make

section Process

def openedFile (v : Vfs) (workingDirectory name : CStr) : Option ℕ :=
  (v.fileGet root workingDirectory).bind (v.fileGet · name)

def executedFile (v : Vfs) (workingDirectory pathname : CStr) : Option ℕ :=
  if pathname.head? = some slash then v.fileGet root pathname
  else (v.fileGet root workingDirectory).bind (v.fileGet · pathname)

/-- The path that `setwd` tries. The last character of an empty working directory is the byte in front
of the string, which is given. -/
def newDir (before : UInt8) (workingDirectory wd : CStr) : CStr :=
  if wd.head? = some slash then wd
  else if workingDirectory.getLast?.getD before ≠ slash then workingDirectory ++ slash :: wd
  else workingDirectory ++ wd

/-- The working directory after `setwd`, and what it returns. -/
def setwd (v : Vfs) (before : UInt8) (workingDirectory wd : CStr) : CStr × Int :=
  match v.fileGet root (newDir before workingDirectory wd) with
  | none => (workingDirectory, -1)
  | some _ => (newDir before workingDirectory wd, 0)

end Process

end Vfs

end OlliOS
