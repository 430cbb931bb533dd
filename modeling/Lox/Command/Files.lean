/-
  Files — what paths lead to

  Files lie in a tree of directories. A path is followed part by part from the
  working directory, or from the root if it begins with a slash: `.` and an
  empty part stay in the directory, `..` leads to the one around it, and only a
  directory can be followed further. The first part that leads nowhere decides
  what is wrong with the path.
-/

namespace Lox.Command

/-- What hinders reading a file. -/
inductive FileProblem where
  | missing
  | notDirectory
  | nameTooLong
  | isDirectory
  /-- Any other fault that the host reports when the file is opened. -/
  | other (message : String)
  deriving DecidableEq, Repr

namespace FileProblem

def message : FileProblem → String
  | missing => "No such file or directory (os error 2)"
  | notDirectory => "Not a directory (os error 20)"
  | nameTooLong => "File name too long (os error 36)"
  | isDirectory => "Is a directory (os error 21)"
  | other message => message

/-- Whether a file is opened before the fault shows. -/
def afterOpening : FileProblem → Bool
  | isDirectory => true
  | _ => false

end FileProblem

inductive FileTree where
  | file (content : List UInt8)
  | directory (entries : List (String × FileTree))

namespace FileTree

/-- The entries of a directory. -/
def entries : FileTree → List (String × FileTree)
  | file _ => []
  | directory entries => entries

/-- A file or directory in a directory. -/
def child? (t : FileTree) (name : String) : Option FileTree := t.entries.lookup name

/-- Puts a tree where a path of names leads, and directories on the way. A
directory that is already there keeps its entries. -/
def insert (old : FileTree) : List String → FileTree → FileTree
  | [], leaf =>
    match leaf, old with
    | directory [], directory entries => directory entries
    | _, _ => leaf
  | name :: names, leaf =>
    let below := ((old.child? name).getD (directory [])).insert names leaf
    directory ((name, below) :: old.entries.filter (·.1 != name))

/-- A file that was put into a directory is there. -/
theorem child?_insert_file (t : FileTree) (name : String) (content : List UInt8) :
    (t.insert [name] (file content)).child? name = some (file content) := by
  simp [insert, child?, entries]

end FileTree

/-- A place in a tree: the file or directory there, and the directories around
it from the inside out. -/
structure Place where
  here : FileTree
  around : List FileTree

/-- The longest name of a file, in bytes. -/
def maxNameLength : Nat := 255

/-- The longest path, in bytes. -/
def maxPathLength : Nat := 4095

namespace Place

/-- The directory around a place; around the root there is none but itself. -/
def outward (p : Place) : Place :=
  match p.around with
  | [] => p
  | outer :: rest => ⟨outer, rest⟩

/-- The place in which all others lie. -/
def root (p : Place) : Place :=
  match p.around.getLast? with
  | some outermost => ⟨outermost, []⟩
  | none => p

/-- Nothing lies around the root. -/
theorem around_root (p : Place) : p.root.around = [] := by
  unfold root
  split
  · rfl
  · rename_i h
    exact List.getLast?_eq_none_iff.1 h

/-- The place to which the parts of a path lead. -/
def follow (p : Place) : List String → Except FileProblem Place
  | [] => .ok p
  | part :: rest =>
    match p.here with
    | .file _ => .error .notDirectory
    | .directory _ =>
      if part = "" ∨ part = "." then p.follow rest
      else if part = ".." then p.outward.follow rest
      else if maxNameLength < part.utf8ByteSize then .error .nameTooLong
      else match p.here.child? part with
        | some tree => follow ⟨tree, p.here :: p.around⟩ rest
        | none => .error .missing

/-- The place to which a path leads. -/
def locate (p : Place) (path : String) : Except FileProblem Place :=
  if maxPathLength < path.utf8ByteSize then .error .nameTooLong
  else
    let start := if path.startsWith "/" then p.root else p
    start.follow (path.splitOn "/")

/-- The content of the file to which a path leads. -/
def read (p : Place) (path : String) : Except FileProblem (List UInt8) := do
  match (← p.locate path).here with
  | .file content => .ok content
  | .directory _ => .error .isDirectory

/-- Writes a file into a directory, over what it held; a directory of the same
name is in the way. -/
def write (p : Place) (name : String) (content : List UInt8) : Except FileProblem Place :=
  match p.here.child? name with
  | some (.directory _) => .error .isDirectory
  | _ => .ok { p with here := p.here.insert [name] (.file content) }

/-- What was written into a directory is there. -/
theorem child?_write {p q : Place} {name : String} {content : List UInt8}
    (h : p.write name content = .ok q) : q.here.child? name = some (.file content) := by
  unfold write at h
  split at h
  · simp at h
  · cases h
    exact FileTree.child?_insert_file ..

end Place
end Lox.Command
