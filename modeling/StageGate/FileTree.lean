import StageGate.FileText

/-!
# File trees

Files as a value, and reading one of them by its path. A path is walked name by name, from the
working directory or, behind a leading slash, from the root. The first name that leads nowhere is
the cause why there is no text.
-/

namespace StageGate

structure FileTree where
  /-- The texts of the files, by the names that lead to them from the root. -/
  files : List (List String × String)
  /-- The names that lead to the working directory. -/
  directory : List String

namespace FileTree

/-- The greatest sizes of a name and of a path, in bytes. -/
def maxNameSize : Nat := 255
def maxPathSize : Nat := 4095

def text? (t : FileTree) (names : List String) : Option String := t.files.lookup names

/-- Directories are the working directory, and whatever lies above it or above a file. -/
def isDirectory (t : FileTree) (names : List String) : Bool :=
  names.isPrefixOf t.directory ||
    t.files.any fun f => names.isPrefixOf f.1 && names.length < f.1.length

/-- Goes on from a place by one name of a path. Only a directory can be left. -/
def step (t : FileTree) (names : List String) (name : String) : Except FileError (List String) :=
  if !t.isDirectory names then .error .notADirectory
  else if name = "" ∨ name = "." then .ok names
  else if name = ".." then .ok names.dropLast
  else if name.utf8ByteSize > maxNameSize then .error .nameTooLong
  else if t.isDirectory (names ++ [name]) || (t.text? (names ++ [name])).isSome then
    .ok (names ++ [name])
  else .error .notFound

def walk (t : FileTree) (path : String) : Except FileError (List String) :=
  (path.splitOn "/").foldlM t.step (if path.startsWith "/" then [] else t.directory)

def read (t : FileTree) (path : String) : FileText :=
  if path = "" then .error .notFound
  else if path.utf8ByteSize > maxPathSize then .error .nameTooLong
  else
    (t.walk path).bind fun names =>
      match t.text? names with
      | some text => .ok text
      | none => .error .isDirectory

end FileTree

end StageGate
