/-
Files and directories, as a tree without links, and what reading a path of the tree gives.

A path is followed component by component, and each component but the last has to be a directory that
is there and that may be searched, also when the way goes up again behind it. So a path may lead nowhere
although a cleaned path to the same place would not.
-/
import Dispatch.Path

namespace Dispatch

/-- What a reader may do with a file or a directory. -/
structure Rights where
  /-- Open it to read. -/
  canRead : Bool
  /-- Look a name up in it. -/
  canSearch : Bool
  deriving DecidableEq, Repr

def Rights.all : Rights := ⟨true, true⟩

/-- A file with its contents, or a directory with its entries. -/
inductive FileTree where
  | file (rights : Rights) (content : Bytes)
  | dir (rights : Rights) (entries : List (Name × FileTree))

/-- Why a file cannot be read. -/
inductive ReadError where
  /-- There is no such entry. -/
  | missing
  /-- A file stands where the path goes on. -/
  | notDirectory
  /-- A directory on the way may not be searched, or what the path leads to may not be read. -/
  | denied
  /-- The path leads to a directory. -/
  | isDirectory
  /-- The path, or a component that is looked up, is longer than any can be. -/
  | tooLong
  /-- The path holds a zero byte. -/
  | zeroByte
  deriving DecidableEq, Repr

namespace FileTree

/-- What stands at a location below the tree. -/
def get : FileTree → Path.Location → Except ReadError FileTree
  | t, [] => .ok t
  | .file _ _, _ :: _ => .error .notDirectory
  | .dir _ entries, c :: cs =>
    match entries.lookup c with
    | none => .error .missing
    | some t => t.get cs

/-- Whether anything stands at a location. -/
def has (t : FileTree) (l : Path.Location) : Bool := (t.get l).isOk

/-- The contents of the file at a location. -/
def read (t : FileTree) (l : Path.Location) : Except ReadError Bytes :=
  match t.get l with
  | .error e => .error e
  | .ok (.file rights content) => if rights.canRead then .ok content else .error .denied
  | .ok (.dir rights _) => if rights.canRead then .error .isDirectory else .error .denied

/-- The rights to a file or directory; what is not there yet will be open to all. -/
def rights : Option FileTree → Rights
  | some (.file rights _) => rights
  | some (.dir rights _) => rights
  | none => .all

/-- The entries of a directory; nothing else has any. -/
def entries : Option FileTree → List (Name × FileTree)
  | some (.dir _ es) => es
  | _ => []

/-- The entries with one replaced or added. -/
def setEntry (name : Name) (t : FileTree) : List (Name × FileTree) → List (Name × FileTree)
  | [] => [(name, t)]
  | e :: es => if e.1 = name then (name, t) :: es else e :: setEntry name t es

/-- The tree with what stands at a location changed; directories on the way are made. -/
def alter (change : Option FileTree → FileTree) : Path.Location → Option FileTree → FileTree
  | [], t => change t
  | c :: cs, t => .dir (rights t) (setEntry c (alter change cs ((entries t).lookup c)) (entries t))

/-- The tree with a directory at a location. -/
def makeDir (t : FileTree) (l : Path.Location) : FileTree :=
  alter (fun t => .dir (rights t) (entries t)) l (some t)

/-- The tree with other contents in the file at a location, which is made if there is none. -/
def writeFile (t : FileTree) (l : Path.Location) (content : Bytes) : FileTree :=
  alter (fun t => .file (rights t) content) l (some t)

end FileTree

/-- A file tree and the directory that relative paths start from. -/
structure FileSystem where
  root : FileTree
  current : Path.Location

namespace FileSystem

/-- The greatest length of a component. -/
def maxName : Nat := 255

/-- The greatest length of a path. -/
def maxPath : Nat := 4095

/-- Go one component on from a directory. An empty component stays there, and looks nothing up. -/
def step (t : FileTree) (l : Path.Location) (c : Name) : Except ReadError Path.Location :=
  match t.get l with
  | .error e => .error e
  | .ok (.file _ _) => .error .notDirectory
  | .ok (.dir rights _) =>
    if !rights.canSearch && !c.isEmpty then .error .denied
    else if maxName < c.length then .error .tooLong
    else .ok (l.enter c)

/-- Go on from a directory, component by component. -/
def walk (t : FileTree) (l : Path.Location) : List Name → Except ReadError Path.Location
  | [] => .ok l
  | c :: cs =>
    match step t l c with
    | .error e => .error e
    | .ok l => walk t l cs

/-- The place that a path leads to. Nothing need stand there, but what is passed on the way has to be
directories that may be searched. -/
def resolve (fs : FileSystem) (path : Bytes) : Except ReadError Path.Location :=
  if 0 ∈ path then .error .zeroByte
  else if maxPath < path.length then .error .tooLong
  else walk fs.root (if Path.isAbsolute path then [] else fs.current) (Bytes.splitOn Path.slash path)

/-- Whether anything stands at a path. -/
def has (fs : FileSystem) (path : Bytes) : Bool :=
  match fs.resolve path with
  | .error _ => false
  | .ok l => fs.root.has l

/-- The contents of the file at a path. -/
def read (fs : FileSystem) (path : Bytes) : Except ReadError Bytes :=
  match fs.resolve path with
  | .error e => .error e
  | .ok l => fs.root.read l

/-- The file system with other contents in a file. -/
def write (fs : FileSystem) (l : Path.Location) (content : Bytes) : FileSystem :=
  { fs with root := fs.root.writeFile l content }

/-- The file system with text added to the file at a path, which is made if there is none. Where no file
can be, nothing changes. -/
def append (fs : FileSystem) (path content : Bytes) : FileSystem :=
  match fs.resolve path with
  | .error _ => fs
  | .ok l =>
    match fs.root.get l with
    | .ok (.file _ before) => fs.write l (before ++ content)
    | .ok (.dir _ _) => fs
    | .error .missing => fs.write l content
    | .error _ => fs

end FileSystem

end Dispatch
