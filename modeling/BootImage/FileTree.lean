import BootImage.Device
import BootImage.Source

/-!
A tree of files with a working directory. Paths are text, components between slashes; a path is
followed component by component, and the first one that cannot be followed decides the error. Files
are opened for reading, as content with a length, and for writing an image, as a window: that never
shortens a file and never changes a byte it has. Links, permissions and times are left out.
-/
namespace BootImage

namespace Path

def absolute (path : String) : Bool := path.startsWith "/"

def endsInSlash (path : String) : Bool := path.endsWith "/"

def components (path : String) : List String :=
  (path.splitOn "/").filter fun part => !part.isEmpty

def join (directory path : String) : String :=
  if absolute path || directory.isEmpty then path
  else if endsInSlash directory then directory ++ path
  else directory ++ "/" ++ path

end Path

inductive Node
  | directory
  | regular (content : ByteArray)
  | null
  | full

abbrev Place := List String

structure FileTree where
  nodes : List (Place × Node)
  working : Place

namespace FileTree

def maxComponent : Nat := 255

def maxPath : Nat := 4095

def node? (t : FileTree) (place : Place) : Option Node :=
  if place.isEmpty then some .directory else t.nodes.lookup place

def put (t : FileTree) (place : Place) (node : Node) : FileTree :=
  { t with nodes := (place, node) :: t.nodes.filter fun (other, _) => other != place }

structure Target where
  place : Place
  node : Option Node
  slash : Bool

def descend (t : FileTree) (here : Place) : List String → Except IoError (Place × Option Node)
  | [] => .ok (here, some .directory)
  | part :: rest =>
    if part = "." then t.descend here rest
    else if part = ".." then t.descend here.dropLast rest
    else if maxComponent < part.utf8ByteSize then .error .nameTooLong
    else
      let there := here ++ [part]
      match t.node? there with
      | some .directory => t.descend there rest
      | some node => if rest.isEmpty then .ok (there, some node) else .error .notADirectory
      | none => if rest.isEmpty then .ok (there, none) else .error .notFound

def outset (t : FileTree) (path : String) : Place :=
  if Path.absolute path then [] else t.working

def checkPath (path : String) : Except IoError Unit :=
  if path.toList.contains '\x00' then .error .nulInPath
  else if path.isEmpty then .error .notFound
  else if maxPath < path.utf8ByteSize then .error .nameTooLong
  else .ok ()

def locate (t : FileTree) (path : String) : Except IoError Target := do
  checkPath path
  let (place, node) ← t.descend (t.outset path) (Path.components path)
  return { place, node, slash := Path.endsInSlash path }

def locateParent (t : FileTree) (path : String) : Except IoError Place := do
  checkPath path
  let (place, _) ← t.descend (t.outset path) ((Path.components path).dropLast ++ ["."])
  return place

def regularAt? (t : FileTree) (path : String) : Option ByteArray :=
  match t.locate path with
  | .ok ⟨_, some (.regular content), false⟩ => some content
  | _ => none

def plantFrom (t : FileTree) (node : Node) (here : Place) : List String → FileTree
  | [] => t
  | part :: rest =>
    if part = "." then t.plantFrom node here rest
    else if part = ".." then t.plantFrom node here.dropLast rest
    else
      let there := here ++ [part]
      if rest.isEmpty then t.put there node
      else
        let t := if (t.node? there).isNone then t.put there .directory else t
        t.plantFrom node there rest

def plant (t : FileTree) (path : String) (node : Node) : FileTree :=
  t.plantFrom node (t.outset path) (Path.components path)

def fresh : FileTree where
  nodes := [(["dev"], .directory), (["dev", "null"], .null), (["dev", "full"], .full),
    (["work"], .directory)]
  working := ["work"]

end FileTree

inductive Handle
  | content (stream : Stream)
  | directory

namespace Handle

def read (h : Handle) (limit : Nat) : Except IoError ByteArray × Handle :=
  match h with
  | .content stream =>
    let (result, stream) := stream.read limit
    (result, .content stream)
  | .directory => (.error .isADirectory, .directory)

instance : Reader Handle := ⟨read⟩

end Handle

namespace FileTree

def directoryLength : UInt64 := 4096

def openForReading (t : FileTree) (path : String) : Except IoError (UInt64 × Handle) := do
  let target ← t.locate path
  match target.node with
  | none => .error .notFound
  | some .directory => return (directoryLength, .directory)
  | some node =>
    if target.slash then .error .notADirectory
    else
      let content := match node with
        | .regular content => content
        | .directory | .null | .full => ByteArray.empty
      return (UInt64.ofNat content.size, .content (.ofContent content))

def openForWriting (t : FileTree) (path : String) : Except IoError (Place × Node) := do
  if Path.endsInSlash path then
    let _ ← t.locateParent path
    .error .isADirectory
  else
    let target ← t.locate path
    match target.node with
    | none => return (target.place, .regular ByteArray.empty)
    | some .directory => .error .isADirectory
    | some node => return (target.place, node)

structure OpenImage where
  place : Place
  window : Window

def extend (content : ByteArray) (required : UInt64) : Except IoError ByteArray :=
  if required.toNat ≤ content.size then .ok content
  else if required.toNat < positionLimit then .ok (padded required.toNat content)
  else .error .lengthOutOfRange

def openImage (t : FileTree) (path : String) (skip total : UInt64) :
    Except IoError OpenImage × FileTree :=
  -- The size is looked at before the tree, and a file is made before it is extended.
  match byteOffset skip total with
  | .error e => (.error e, t)
  | .ok required =>
    match t.openForWriting path with
    | .error e => (.error e, t)
    | .ok (place, .regular content) =>
      match extend content required with
      | .error e => (.error e, t.put place (.regular content))
      | .ok content => (.ok ⟨place, ⟨.file content, skip⟩⟩, t.put place (.regular content))
    | .ok (place, .null) => (.ok ⟨place, ⟨.discard, skip⟩⟩, t)
    | .ok (place, .full) => (.ok ⟨place, ⟨.full, skip⟩⟩, t)
    | .ok (_, .directory) => (.error .isADirectory, t)

def close (t : FileTree) (place : Place) (window : Window) : FileTree :=
  match window.sink with
  | .file content => t.put place (.regular content)
  | .growing _ | .fixed _ | .discard | .full => t

end FileTree

end BootImage
