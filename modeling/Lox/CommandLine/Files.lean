/-!
# Files

The files that a command may be pointed at, as a tree of directories. A path is followed name by
name from the directory it starts in. What stands before a slash has to be a directory, also when
nothing follows the slash.
-/
namespace Lox.CommandLine

/-- Why the text of a file cannot be had. -/
inductive FileFailure where
  | missing
  | notDirectory
  | directory
  | nameTooLong
  | notText
  | other (reason : String)
  deriving DecidableEq, Repr

/-- The reason as the system words it. -/
def FileFailure.reason : FileFailure → String
  | missing => "No such file or directory (os error 2)"
  | notDirectory => "Not a directory (os error 20)"
  | directory => "Is a directory (os error 21)"
  | nameTooLong => "File name too long (os error 36)"
  | notText => "stream did not contain valid UTF-8"
  | other reason => reason

/-- What was tried when the failure arose. A directory can be opened, but not read. -/
def FileFailure.attempt : FileFailure → String
  | directory | notText => "read"
  | missing | notDirectory | nameTooLong | other _ => "open"

/-- A file or a directory. The first entry of a name counts. -/
inductive FileTree where
  | file (bytes : ByteArray)
  | directory (entries : List (String × FileTree))

/-- A place in a tree: what is there, and the directories above it, the nearest first. -/
structure Place where
  here : FileTree
  above : List FileTree := []

/-- The bytes that a single name in a path may have. -/
def longestName : Nat := 255

/-- The bytes that a path may have. -/
def longestPath : Nat := 4095

/-- The names between the slashes of a path. -/
def namesBetween (path : List Char) : List (List Char) :=
  path.foldr
    (fun c names =>
      match c, names with
      | '/', names => [] :: names
      | c, name :: names => (c :: name) :: names
      | c, [] => [[c]])
    [[]]

def pathNames (path : String) : List String := (namesBetween path.toList).map String.ofList

namespace FileTree

/-- Puts a tree where the names lead, making the directories on the way. A file on the way is
replaced. -/
def put (added : FileTree) : List String → FileTree → FileTree
  | [], _ => added
  | name :: names, .directory entries =>
    let inner := (entries.lookup name).getD (.directory [])
    .directory ((name, added.put names inner) :: entries)
  | name :: names, .file _ => .directory [(name, added.put names (.directory []))]

end FileTree

namespace Place

/-- The directory above, which at the top is the directory itself. -/
def up (place : Place) : Place :=
  match place.above with
  | [] => place
  | here :: above => { here, above }

/-- Follows one name of a path. -/
def enter (place : Place) (name : String) : Except FileFailure Place :=
  match place.here with
  | .file _ => .error .notDirectory
  | .directory entries =>
    if name = "" || name = "." then .ok place
    else if name = ".." then .ok place.up
    else if longestName < name.utf8ByteSize then .error .nameTooLong
    else
      match entries.lookup name with
      | some here => .ok { here, above := place.here :: place.above }
      | none => .error .missing

def follow (place : Place) : List String → Except FileFailure Place
  | [] => .ok place
  | name :: names =>
    match place.enter name with
    | .ok next => next.follow names
    | .error failure => .error failure

/-- The top of the tree. -/
def top (place : Place) : Place := { here := place.above.getLastD place.here }

/-- Where a path leads from here; a path that starts with a slash starts at the top. -/
def resolve (place : Place) (path : String) : Except FileFailure Place :=
  if longestPath < path.utf8ByteSize then .error .nameTooLong
  else (if path.startsWith "/" then place.top else place).follow (pathNames path)

/-- The text of the file to which a path leads. -/
def readText (place : Place) (path : String) : Except FileFailure String :=
  match place.resolve path with
  | .error failure => .error failure
  | .ok { here := .directory _, .. } => .error .directory
  | .ok { here := .file bytes, .. } =>
    match String.fromUTF8? bytes with
    | some text => .ok text
    | none => .error .notText

end Place

end Lox.CommandLine
