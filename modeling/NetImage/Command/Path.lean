import NetImage.Bytes

/-!
# NetImage.Command.Path

File paths as byte strings: components between slashes, in the shortest form that names the same file
when no component is a link.
-/

namespace NetImage
namespace Path

def slash : UInt8 := 0x2f

/-- Does the path start at the root? -/
def isAbsolute : Bytes → Bool
  | b :: _ => b == slash
  | [] => false

/-- The component that stands for the parent. -/
def parent : Bytes := ascii ".."

/-- One component more on top of those that remain, the last first. -/
def push (absolute : Bool) (stack : List Bytes) (component : Bytes) : List Bytes :=
  if component.isEmpty || component == ascii "." then stack
  else if component == parent then
    match stack with
    | top :: rest => if top == parent then parent :: stack else rest
    | [] => if absolute then [] else [parent]
  else component :: stack

/-- The components that remain when those that cancel are dropped. -/
def components (path : Bytes) : List Bytes :=
  ((path.split slash).foldl (push (isAbsolute path)) []).reverse

/-- The shortest form of a path. -/
def clean (path : Bytes) : Bytes :=
  let joined := Bytes.join [slash] (components path)
  if isAbsolute path then slash :: joined
  else if joined.isEmpty then ascii "." else joined

/-- A path below a directory; an empty one is the current directory. -/
def join (dir name : Bytes) : Bytes :=
  if dir.isEmpty then clean name else clean (dir ++ slash :: name)

/-- The directory of a file. -/
def directory (path : Bytes) : Bytes :=
  clean (path.reverse.dropWhile (· != slash)).reverse

end Path
end NetImage
