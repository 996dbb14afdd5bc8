import OrsonHighlight.Path
import OrsonHighlight.Text.Quoted

/-!
Files by their paths, as much of them as the command line touches, and a store of files that is a
value: a tree with a working directory in it, where writing may break off.
-/

set_option autoImplicit false

namespace OrsonHighlight

inductive FileError where
  | notFound
  | isDirectory
  | notDirectory
  | nameTooLong
  | tooLarge
  | nullCharacter
  deriving DecidableEq, Repr

namespace FileError

/-- The number and the words of a fault that is found in the files. A path with a null character is
never looked for in them. -/
def cause? : FileError → Option String
  | notFound => some "[Errno 2] No such file or directory"
  | isDirectory => some "[Errno 21] Is a directory"
  | notDirectory => some "[Errno 20] Not a directory"
  | nameTooLong => some "[Errno 36] File name too long"
  | tooLarge => some "[Errno 27] File too large"
  | nullCharacter => none

def message? (e : FileError) (p : Path) : Option String :=
  e.cause?.map fun cause => cause ++ ": " ++ Quoted.encodeString p.toString

end FileError

structure FileAccess (m : Type → Type) where
  isFile : Path → m (Except FileError Bool)
  read : Path → m (Except FileError (List UInt8))
  write : Path → List UInt8 → m (Except FileError Unit)

/-- What stands at a place. A device gives its reader what it has and keeps nothing of what is
written to it, which a screen shows on the standard output. -/
inductive FileNode where
  | file (bytes : List UInt8)
  | directory
  | device (given : List UInt8) (screen : Bool)
  deriving DecidableEq, Repr

/-- Nodes by their places: the components of a path from the root, which is a directory itself. -/
structure FileSystem where
  nodes : List (List String × FileNode)
  /-- Where a path without a slash at its front begins. -/
  workingDirectory : List String
  /-- How many bytes a file can hold, if there is an end to it. -/
  limit : Option Nat
  /-- What has come to the standard output by way of screens. -/
  shown : List UInt8
  deriving DecidableEq, Repr

namespace FileSystem

/-- A working directory with nothing in it, beside a device that takes everything and has
nothing. -/
def empty : FileSystem where
  nodes := [(["dev"], .directory), (["dev", "null"], .device [] false), (["tmp"], .directory),
    (["tmp", "work"], .directory)]
  workingDirectory := ["tmp", "work"]
  limit := none
  shown := []

def at? (fs : FileSystem) (place : List String) : Option FileNode :=
  if place = [] then some .directory else (fs.nodes.find? (·.1 == place)).map (·.2)

def putNode (place : List String) (node : FileNode) :
    List (List String × FileNode) → List (List String × FileNode)
  | [] => [(place, node)]
  | (p, old) :: rest =>
    if p = place then (p, node) :: rest else (p, old) :: putNode place node rest

def put (fs : FileSystem) (place : List String) (node : FileNode) : FileSystem :=
  { fs with nodes := putNode place node fs.nodes }

def maxComponent : Nat := 255

def maxPath : Nat := 4095

def enter (place : List String) (c : String) : Except FileError (List String) :=
  if c = ".." then .ok place.dropLast
  else if maxComponent < c.utf8ByteSize then .error .nameTooLong
  else .ok (place ++ [c])

def mustBeDirectory (fs : FileSystem) (place : List String) : Except FileError Unit :=
  match fs.at? place with
  | none => .error .notFound
  | some .directory => .ok ()
  | some _ => .error .notDirectory

/-- Component by component; the last need not be there. -/
def walk (fs : FileSystem) (place : List String) : List String → Except FileError (List String)
  | [] => .ok place
  | c :: rest => do
    fs.mustBeDirectory place
    walk fs (← enter place c) rest

def locate (fs : FileSystem) (p : Path) : Except FileError (List String) :=
  if p.hasNull then .error .nullCharacter
  else if maxPath < p.toString.utf8ByteSize then .error .nameTooLong
  else fs.walk (if p.slashes = 0 then fs.workingDirectory else []) p.components

/-- What is not there is no file, and neither is what no file can be called; a name that is too long
leaves the question open. -/
def isFile (fs : FileSystem) (p : Path) : Except FileError Bool :=
  match fs.locate p with
  | .error .nameTooLong => .error .nameTooLong
  | .error _ => .ok false
  | .ok place =>
    match fs.at? place with
    | some (.file _) => .ok true
    | _ => .ok false

def read (fs : FileSystem) (p : Path) : Except FileError (List UInt8) :=
  match fs.locate p with
  | .error e => .error e
  | .ok place =>
    match fs.at? place with
    | none => .error .notFound
    | some .directory => .error .isDirectory
    | some (.file bytes) => .ok bytes
    | some (.device given _) => .ok given

/-- The place to write to, and the files once it is open: what is no device is made a file with
nothing in it. -/
def opened (fs : FileSystem) (p : Path) : Except FileError (List String × FileSystem) :=
  match fs.locate p with
  | .error e => .error e
  | .ok place =>
    match fs.at? place with
    | some .directory => .error .isDirectory
    | some (.device _ _) => .ok (place, fs)
    | _ => .ok (place, fs.put place (.file []))

def held (fs : FileSystem) (bytes : List UInt8) : List UInt8 :=
  match fs.limit with
  | none => bytes
  | some n => bytes.take n

def fill (fs : FileSystem) (place : List String) (bytes : List UInt8) :
    Except FileError Unit × FileSystem :=
  match fs.at? place with
  | some (.device _ screen) =>
    (.ok (), if screen then { fs with shown := fs.shown ++ bytes } else fs)
  | _ =>
    (if fs.held bytes = bytes then .ok () else .error .tooLarge,
      fs.put place (.file (fs.held bytes)))

/-- A file is opened and then filled. Where that fails, the file has been emptied already. -/
def write (fs : FileSystem) (p : Path) (bytes : List UInt8) :
    Except FileError Unit × FileSystem :=
  match fs.opened p with
  | .error e => (.error e, fs)
  | .ok (place, fs) => fs.fill place bytes

def add (fs : FileSystem) (place : List String) (node : FileNode) : FileSystem :=
  let ways := ((List.range place.length).drop 1).map fun k => fs.workingDirectory ++ place.take k
  (ways.foldl (fun fs way => fs.put way .directory) fs).put (fs.workingDirectory ++ place) node

/-- The files of the working directory that are new or have other bytes. -/
def changed (before after : FileSystem) : List (List String × List UInt8) :=
  after.nodes.filterMap fun (place, node) =>
    match node with
    | .file bytes =>
      if before.workingDirectory.isPrefixOf place ∧ before.at? place ≠ some node then
        some (place.drop before.workingDirectory.length, bytes)
      else none
    | _ => none

def access : FileAccess (StateM FileSystem) where
  isFile p := return (← get).isFile p
  read p := return (← get).read p
  write p bytes := modifyGet (·.write p bytes)

end FileSystem

end OrsonHighlight
