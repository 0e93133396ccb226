import OlliOS.Iso9660
import OlliOS.Lib.Stepping

/-!
# Growth of the tree

The calls that make files and put them into folders, in any order and on any files: `create` and
`bind`, and the constructors by which drivers make the files that they bind. A session is a process
that changes its working directory while the tree grows.
-/

namespace OlliOS

inductive VfsCall
  | create (f : ℕ) (name : CStr) (flags : UInt32)
  | bind (f child : ℕ)
  | newFolder (name : CStr)
  | newFile (name : CStr)
  | newLeaf (name : CStr)
  | newLink (name : CStr) (original : ℕ)
  | newView (name : CStr) (parent : ℕ)
  | mount (fs : Iso9660FileSystem) (depth : ℕ)

namespace Vfs

def step (v : Vfs) : VfsCall → Option Vfs
  | .create f name flags => some (v.create f name flags).1
  | .bind f child => if h : child < v.files.length then some (v.bind f child h).1 else none
  | .newFolder name => some (v.newFolder name)
  | .newFile name => some (v.newFile (.virtualFile name .empty) (File.fresh_virtualFile name .empty))
  | .newLeaf name => some (v.newFile (.leaf name) (File.fresh_leaf name))
  | .newLink name original =>
    if h : original < v.files.length then some (v.newLink name original h) else none
  | .newView name parent =>
    if h : parent < v.files.length then some (v.newView name parent h) else none
  | .mount fs depth => fs.mount depth v

end Vfs

structure Session where
  vfs : Vfs
  workingDirectory : CStr

inductive SessionCall
  | vfs (call : VfsCall)
  | setwd (before : UInt8) (wd : CStr)

namespace Session

def step (s : Session) : SessionCall → Option Session
  | .vfs call => (s.vfs.step call).map fun v => { s with vfs := v }
  | .setwd before wd => some { s with workingDirectory := (s.vfs.setwd before s.workingDirectory wd).1 }

end Session

end OlliOS
