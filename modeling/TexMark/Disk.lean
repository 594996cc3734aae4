/-
  TexMark/Disk.lean
  =================
  **Files.** A disk is what a command finds at its working directory and leaves there. Reading
  and writing a file can fail in the ways of a file system, and a file need not hold a text.
  Nor need a text have bytes: an argument can stem from bytes that are no text. A file is
  emptied before that is found out.
-/
import TexMark.Path
import TexMark.Table
import TexMark.Text.Encoding
import TexMark.Text.LineBreak

namespace TexMark

/-- The content of a file: a text, or bytes that are none. -/
inductive Content where
  | text (t : Text)
  | bytes (b : Encoding.Bytes)
deriving DecidableEq, Repr

def Content.ofBytes (b : Encoding.Bytes) : Content :=
  match Encoding.decodeUtf8 b with
  | .ok t => .text t
  | .error _ => .bytes b

/-- What stands at a place of a disk. -/
inductive Node where
  | directory
  | file (content : Content)
deriving DecidableEq, Repr

/-- Why a file cannot be read or written. -/
inductive FileFault where
  | notFound (path : Path)
  | isDirectory (path : Path)
  | notDirectory (path : Path)
  | nameTooLong (path : Path)
  /-- A path may not hold the character with code point zero. -/
  | nullInPath
  | notText (error : Encoding.DecodeError)
  /-- The text to be written has no bytes, as the encoding complains. -/
  | unencodable (complaint : Text)
deriving DecidableEq, Repr

def FileFault.message : FileFault → Text
  | notFound path => "[Errno 2] No such file or directory: " ++ Text.quoted path.text
  | isDirectory path => "[Errno 21] Is a directory: " ++ Text.quoted path.text
  | notDirectory path => "[Errno 20] Not a directory: " ++ Text.quoted path.text
  | nameTooLong path => "[Errno 36] File name too long: " ++ Text.quoted path.text
  | nullInPath => "embedded null byte"
  | notText error => error.message
  | unencodable complaint => complaint

/-- A place of a disk: the names that lead to it from the working directory. Double points at
    the head lead out of the working directory, a slash at the head leads to the root. -/
abbrev Place := List Text

/-- A **disk**: its files, and the directories that hold none. -/
structure Disk where
  nodes : List (Place × Node)
deriving Repr

namespace Disk

def up : Text := ".."

def root : Place := [['/']]

def outer (place : Place) : Place :=
  if place = root then root
  else match place.getLast? with
    | none => [up]
    | some name => if name = up then place ++ [up] else place.dropLast

/-- Is the place a directory whatever the disk holds? -/
def isFixedDirectory (place : Place) : Bool := place.all (· == up) || place == root

/-- What stands at a place. A place on the way to a file is a directory. -/
def nodeAt? (disk : Disk) (place : Place) : Option Node :=
  if isFixedDirectory place then some .directory
  else match disk.nodes.find? fun e => e.1 == place with
    | some e => some e.2
    | none =>
      if disk.nodes.any fun e => place.isPrefixOf e.1 then some .directory else none

/-- What a path leads to: a directory, a file, a name that is free in a directory, or
    nowhere. -/
inductive Target where
  | directory
  | file (place : Place) (content : Content)
  | free (place : Place)
  | nowhere (fault : FileFault)

def maxNameBytes : Nat := 255

def maxPathBytes : Nat := 4095

/-- Follows names from a directory. What is wrong with the first name that leads nowhere decides,
    and nothing behind that name is looked at. -/
def follow (disk : Disk) (path : Path) (here : Place) : List Text → Target
  | [] => .directory
  | name :: names =>
    if name = up then follow disk path (outer here) names
    else if maxNameBytes < (Encoding.encodeUtf8 name).length then .nowhere (.nameTooLong path)
    else match disk.nodeAt? (here ++ [name]) with
      | some .directory => follow disk path (here ++ [name]) names
      | some (.file content) =>
        if names.isEmpty then .file (here ++ [name]) content else .nowhere (.notDirectory path)
      | none =>
        if names.isEmpty then .free (here ++ [name]) else .nowhere (.notFound path)

def lookUp (disk : Disk) (path : Path) : Target :=
  if path.names.any fun name => name.contains (Char.ofNat 0) then .nowhere .nullInPath
  else if maxPathBytes < (Encoding.encodeUtf8 path.text).length then .nowhere (.nameTooLong path)
  else disk.follow path (if path.slashes = 0 then [] else root) path.names

def exists? (disk : Disk) (path : Path) : Bool :=
  match disk.lookUp path with
  | .directory => true
  | .file _ _ => true
  | _ => false

/-- Reads a file of text; its line ends become line feeds. -/
def readText (disk : Disk) (path : Path) : Except FileFault Text :=
  match disk.lookUp path with
  | .directory => .error (.isDirectory path)
  | .free _ => .error (.notFound path)
  | .nowhere fault => .error fault
  | .file _ (.text t) => .ok (Text.unifyLineFeeds t)
  | .file _ (.bytes b) =>
    ((Encoding.decodeUtf8 b).mapError .notText).map Text.unifyLineFeeds

def put (disk : Disk) (place : Place) (t : Text) : Disk :=
  ⟨disk.nodes.filter (fun e => e.1 != place) ++ [(place, .file (.text t))]⟩

/-- Puts a text that has bytes into a file, whatever it held. -/
def writeText (disk : Disk) (path : Path) (t : Text) : Except FileFault Disk :=
  match disk.lookUp path with
  | .directory => .error (.isDirectory path)
  | .nowhere fault => .error fault
  | .free place => .ok (disk.put place t)
  | .file place _ => .ok (disk.put place t)

/-- What a write leaves: a disk, and what went wrong if something did. -/
structure Written where
  disk : Disk
  fault? : Option FileFault

/-- Writes a text to a file that is emptied first. A text that the encoding
    complains about leaves the file empty. -/
def save (complaint? : Text → Option Text) (disk : Disk) (path : Path) (t : Text) : Written :=
  match disk.writeText path (if (complaint? t).isSome then [] else t) with
  | .error fault => ⟨disk, some fault⟩
  | .ok changed => ⟨changed, (complaint? t).map .unencodable⟩

end Disk

end TexMark
