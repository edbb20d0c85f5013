/-
Settings from files: from the file in a directory, or from the nearest one above it.
-/
import Dispatch.FileTree
import Dispatch.Settings.Decode

namespace Dispatch

/-- Why settings cannot be loaded. Each cause comes with the path of the file. -/
inductive LoadError where
  | unreadable (path : Bytes) (cause : ReadError)
  /-- The text is no document, or a setting has the wrong type. -/
  | illFormed (path : Bytes)
  | negativeCapacity (path : Bytes)
  deriving DecidableEq, Repr

namespace LoadError

/-- What went wrong when the file was read. -/
def ofRead (path : Bytes) : ReadError → Bytes
  | .missing => Bytes.ofString "open " ++ path ++ Bytes.ofString ": no such file or directory"
  | .notDirectory => Bytes.ofString "open " ++ path ++ Bytes.ofString ": not a directory"
  | .denied => Bytes.ofString "open " ++ path ++ Bytes.ofString ": permission denied"
  | .tooLong => Bytes.ofString "open " ++ path ++ Bytes.ofString ": file name too long"
  | .zeroByte => Bytes.ofString "open " ++ path ++ Bytes.ofString ": invalid argument"
  | .isDirectory => Bytes.ofString "read " ++ path ++ Bytes.ofString ": is a directory"

/-- The text of an error; `detail` says what is wrong with an ill-formed file. -/
def message (detail : Bytes) : LoadError → Bytes
  | .unreadable path cause =>
    Bytes.ofString "cannot read " ++ path ++ Bytes.ofString ": " ++ ofRead path cause
  | .illFormed path => Bytes.ofString "parse error in " ++ path ++ Bytes.ofString ": " ++ detail
  | .negativeCapacity path => path ++ Bytes.ofString ": runtime.symbol-capacity must not be negative"

end LoadError

namespace Settings

/-- The name of files with settings. -/
def fileName : Name := Bytes.ofString "ember.toml"

/-- Load the settings of a directory. -/
def load (fs : FileSystem) (dir : Bytes) : Except LoadError Settings :=
  let path := Path.join dir fileName
  match fs.read path with
  | .error cause => .error (.unreadable path cause)
  | .ok data =>
    match decode? data with
    | none => .error (.illFormed path)
    | some s =>
      if s.symbolCapacity < 0 then .error (.negativeCapacity path)
      else .ok { s with dir := (Path.absolute fs.current dir).text }

/-- Load the settings of the nearest directory that has any, from `dir` upwards. -/
def findFrom (fs : FileSystem) (dir : Path.Rooted) : Except LoadError (Option Settings) :=
  if fs.has (Path.join dir.text fileName) then (load fs dir.text).map some
  else if dir.parent = dir then .ok none
  else findFrom fs dir.parent
termination_by dir.text.length
decreasing_by exact Path.Rooted.length_parent_lt (by assumption)

/-- Load the settings of the nearest directory that has any, from where `start` leads upwards. -/
def find (fs : FileSystem) (start : Bytes) : Except LoadError (Option Settings) :=
  findFrom fs (Path.absolute fs.current start)

end Settings

end Dispatch
