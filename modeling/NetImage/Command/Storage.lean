import NetImage.Command.Path
import Std.Data.TreeMap
import Std.Data.TreeSet

/-!
# NetImage.Command.Storage

Files. A command reads and writes through a `Storage`; a `FileTree` is one in memory, with the same
errors that an operating system reports.
-/

namespace NetImage

/-- What a file was touched for when it failed. -/
inductive FileAction where
  | opening
  | reading
  deriving DecidableEq, Repr

/-- An error about a file. -/
structure FileError where
  action : FileAction
  path : Bytes
  reason : Bytes
  deriving DecidableEq, Repr

/-- The wording of an error. -/
def FileError.message (e : FileError) : Bytes :=
  let action := match e.action with
    | .opening => "open "
    | .reading => "read "
  ascii action ++ e.path ++ ascii ": " ++ e.reason

/-- A place where files are. -/
structure Storage (m : Type → Type) where
  read : Bytes → m (Except FileError ByteArray)
  write : Bytes → ByteArray → m (Except FileError Unit)

/-- Files and directories below a current directory, each named by its path in shortest form. -/
structure FileTree where
  files : Std.TreeMap Bytes ByteArray
  dirs : Std.TreeSet Bytes

namespace FileTree

/-- No file and no directory. -/
def empty : FileTree := ⟨∅, ∅⟩

def notFound : Bytes := ascii "no such file or directory"
def notDirectory : Bytes := ascii "not a directory"
def isDirectory : Bytes := ascii "is a directory"
def invalid : Bytes := ascii "invalid argument"
def tooLong : Bytes := ascii "file name too long"

/-- The longest name of a component. -/
def nameLimit : Nat := 255

/-- A path of this many bytes is too long. -/
def pathLimit : Nat := 4096

/-- What a path names. -/
inductive Entry where
  | file (bytes : ByteArray)
  | dir
  /-- Nothing, but the directory for it is there. -/
  | vacant
  /-- Nothing, in a directory outside the tree. -/
  | outside

/-- A directory that a walk has reached. -/
inductive Place where
  /-- A directory of the tree, by its components, the last first. -/
  | inside (stack : List Bytes)
  /-- A directory above the tree, in which nothing else is. -/
  | above

/-- The directory that holds a directory. -/
def Place.up : Place → Place
  | .inside (_ :: stack) => .inside stack
  | _ => .above

/-- Does this component stay where it is? -/
def isIdle (c : Bytes) : Bool := c.isEmpty || c == ascii "."

/-- Goes down the components of a path from a directory. -/
def walk (t : FileTree) : Place → List Bytes → Except Bytes Entry
  | _, [] => .ok .dir
  | place, c :: rest =>
    if isIdle c then walk t place rest
    else if c == Path.parent then walk t place.up rest
    else if nameLimit < c.length then .error tooLong
    else match place with
      | .above => if rest.isEmpty then .ok .outside else .error notFound
      | .inside stack =>
        let path := Bytes.join [Path.slash] (c :: stack).reverse
        match t.files[path]? with
          | some bytes => if rest.isEmpty then .ok (.file bytes) else .error notDirectory
          | none =>
            if t.dirs.contains path then walk t (.inside (c :: stack)) rest
            else if rest.isEmpty then .ok .vacant else .error notFound

/-- What a path names. The root is above the tree. -/
def find (t : FileTree) (path : Bytes) : Except Bytes Entry :=
  if path.contains 0 then .error invalid
  else if path.isEmpty then .error notFound
  else if pathLimit ≤ path.length then .error tooLong
  else walk t (if Path.isAbsolute path then .above else .inside []) (path.split Path.slash)

/-- The bytes of a file. -/
def read (t : FileTree) (path : Bytes) : Except FileError ByteArray :=
  match t.find path with
  | .error reason => .error ⟨.opening, path, reason⟩
  | .ok (.file bytes) => .ok bytes
  | .ok .dir => .error ⟨.reading, path, isDirectory⟩
  | .ok .vacant => .error ⟨.opening, path, notFound⟩
  | .ok .outside => .error ⟨.opening, path, notFound⟩

/-- The tree with a file written. What lies outside the tree is not kept. -/
def write (t : FileTree) (path : Bytes) (bytes : ByteArray) : Except FileError FileTree :=
  match t.find path with
  | .error reason => .error ⟨.opening, path, reason⟩
  | .ok .dir => .error ⟨.opening, path, isDirectory⟩
  | .ok .outside => .ok t
  | .ok _ => .ok { t with files := t.files.insert (Path.clean path) bytes }

/-- The directories on the way to a path, in its shortest form. -/
def ancestors (path : Bytes) : List Bytes :=
  let parts := Path.components path
  (List.range (parts.length - 1)).map fun n => Bytes.join [Path.slash] (parts.take (n + 1))

/-- The tree with a directory and those above it. -/
def addDir (t : FileTree) (path : Bytes) : FileTree :=
  { t with dirs := (ancestors path).foldl (fun s d => s.insert d) (t.dirs.insert (Path.clean path)) }

/-- The tree with a file and the directories above it. -/
def addFile (t : FileTree) (path : Bytes) (bytes : ByteArray) : FileTree :=
  { files := t.files.insert (Path.clean path) bytes
    dirs := (ancestors path).foldl (fun s d => s.insert d) t.dirs }

/-- The tree as a storage. -/
def storage : Storage (StateM FileTree) where
  read path := fun t => (t.read path, t)
  write path bytes := fun t =>
    match t.write path bytes with
    | .ok t => (.ok (), t)
    | .error e => (.error e, t)

end FileTree
end NetImage
