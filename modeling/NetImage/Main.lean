import NetImage.Command.Run

/-!
# NetImage.Main

The command line: arguments, files and streams of the operating system around `Command.run`.
-/

namespace NetImage
namespace Main

/-- Bytes as text, as far as they are. -/
def toText (s : Bytes) : String :=
  match String.fromUTF8? s.toByteArray with
  | some text => text
  | none => String.ofList (s.map fun b => Char.ofNat b.toNat)

/-- What an error of the operating system says. -/
def reason : IO.Error → Bytes
  | .noFileOrDirectory .. => FileTree.notFound
  | .inappropriateType _ _ details => ascii details.toLower
  | e => ascii (toString e)

/-- What was tried when a file could not be read: a directory can be opened, but not read. -/
def action : IO.Error → FileAction
  | .inappropriateType _ 21 _ => .reading
  | _ => .opening

/-- The files of the operating system. -/
def storage : Storage IO where
  read path := do
    try
      return .ok (← IO.FS.readBinFile (toText path))
    catch e =>
      return .error ⟨action e, path, reason e⟩
  write path bytes := do
    try
      IO.FS.writeBinFile (toText path) bytes
      return .ok ()
    catch e =>
      return .error ⟨.opening, path, reason e⟩

/-- The value of a field of a report as it is printed. -/
def showValue : EventValue → String
  | .int n => toString n
  | .ints ns => toString ns
  | .text s => toText (quote s)
  | .real x => toString x

/-- A report as it is printed; details for debugging are not. -/
def showEvent (e : Event) : String :=
  let fields := e.fields.map fun (name, value) => name ++ "=" ++ showValue value
  let level := match e.level with
    | .warn => "WARN"
    | _ => "INFO"
  level ++ "\t" ++ e.message ++ "\t" ++ " ".intercalate fields

end Main
end NetImage

/-- Runs the program. -/
def main (args : List String) : IO UInt32 := do
  let outcome ← NetImage.Command.run NetImage.Main.storage (args.map NetImage.ascii)
  let stderr ← IO.getStderr
  for event in outcome.log do
    unless event.level == .debug do
      stderr.putStrLn (NetImage.Main.showEvent event)
  (← IO.getStdout).write outcome.stdout
  stderr.write outcome.stderr.toByteArray
  return outcome.exit.toUInt32
