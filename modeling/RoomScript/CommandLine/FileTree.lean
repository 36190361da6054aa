import RoomScript.CommandLine.Files

/-!
# Files as a value

`FileTree` is a tree of directories with files in them.  Beside what is put there, it has what every
system has: the root with its directories, and the sink `/dev/null`.  Relative paths start from
`home`, a directory below `/tmp` that has no name of its own, so that it is reached by starting
there and not from outside.

A place in the tree is given by the names that lead there from the root.  A path is followed
component by component (`enter`), and the first step that cannot be made decides on the error.
-/

set_option autoImplicit false

namespace RoomScript

/-- A file or a directory with everything below it. -/
inductive FileTree where
  | file (content : Bytes)
  /-- Takes what is written, and is empty all the same. -/
  | sink
  | directory (entries : List (String × FileTree))

namespace FileTree

/-- Where relative paths start from.  No path has an empty component. -/
def home : List String := ["tmp", ""]

/-- The directories without content in the root of every system. -/
def rootDirectories : List String :=
  ["bin", "boot", "etc", "home", "lib", "media", "mnt", "opt", "proc", "root", "run", "sbin", "srv",
    "sys", "usr", "var"]

/-- What every system has, and an empty home. -/
def empty : FileTree :=
  .directory
    (("dev", .directory [("null", .sink)]) :: ("tmp", .directory [("", .directory [])])
      :: rootDirectories.map (fun name ↦ (name, .directory [])))

/-- What is at a place. -/
def node? : FileTree → List String → Option FileTree
  | tree, [] => some tree
  | directory entries, name :: rest => (entries.lookup name).bind fun child ↦ node? child rest
  | _, _ :: _ => none

/-- Whether this is a directory. -/
def isDirectory : FileTree → Bool
  | directory _ => true
  | _ => false

/-- Whether there is a directory at a place. -/
def hasDirectory (tree : FileTree) (place : List String) : Bool :=
  (node? tree place).any isDirectory

/-- Changes the entry with a name, which may be new. -/
def changeEntry (name : String) (change : Option FileTree → FileTree) :
    List (String × FileTree) → List (String × FileTree)
  | [] => [(name, change none)]
  | (other, child) :: rest =>
    if other = name then (name, change (some child)) :: rest
    else (other, child) :: changeEntry name change rest

/-- Puts something at a place, over what was there. -/
def put : FileTree → List String → FileTree → FileTree
  | _, [], node => node
  | directory entries, name :: rest, node =>
    .directory (changeEntry name (fun child? ↦ put (child?.getD (.directory [])) rest node) entries)
  | tree, _ :: _, _ => tree

/-! ## Following paths -/

/-- The place where a path starts. -/
def start (path : String) : List String := if path.startsWith "/" then [] else home

/-- Makes one step of a path.  The root is its own parent. -/
def enter (tree : FileTree) (here : List String) (component : String) :
    Except FileError (List String) :=
  if !hasDirectory tree here then .error .notDirectory
  else if component = ".." then .ok here.dropLast
  else if Path.maxComponent < component.utf8ByteSize then .error .nameTooLong
  else if (node? tree (here ++ [component])).isSome then .ok (here ++ [component])
  else .error .notFound

/-- Makes several steps. -/
def descend (tree : FileTree) (here : List String) (components : List String) :
    Except FileError (List String) :=
  components.foldlM (enter tree) here

/-- The place that a path leads to. -/
def resolve (tree : FileTree) (path : String) : Except FileError (List String) := do
  Path.check path
  let place ← descend tree (start path) (Path.components path)
  if Path.namesDirectory path && !hasDirectory tree place then .error .notDirectory
  else .ok place

/-! ## The operations -/

/-- The content of the file at a path. -/
def read (tree : FileTree) (path : String) : Except FileError Bytes := do
  match node? tree (← resolve tree path) with
  | some (.file content) => .ok content
  | some (.directory _) => .error .isDirectory
  | some .sink => .ok #[]
  | none => .error .notFound

/-- Writes a file in a directory. -/
def writeIn (tree : FileTree) (parent : List String) (name : String) (content : Bytes) :
    Except FileError FileTree :=
  match enter tree parent name with
  | .ok place =>
    match node? tree place with
    | some (.directory _) => .error .isDirectory
    | some .sink => .ok tree
    | _ => .ok (put tree place (.file content))
  | .error .notFound => .ok (put tree (parent ++ [name]) (.file content))
  | .error e => .error e

/-- The tree after a file was written.  A path that says that it is a directory cannot be written,
whether there is such a directory or not. -/
def write (tree : FileTree) (path : String) (content : Bytes) : Except FileError FileTree := do
  Path.check path
  let components := Path.components path
  match components.getLast? with
  | none => .error .isDirectory
  | some name =>
    if Path.endsInDots path then
      let _ ← resolve tree path
      .error .isDirectory
    else
      let parent ← descend tree (start path) components.dropLast
      if hasDirectory tree parent && path.endsWith "/" then .error .isDirectory
      else writeIn tree parent name content

mutual

/-- The paths of the files of a tree that is at a path.  The path of a directory that is listed must
not be too long; that of a file may be. -/
def filesAt (path : String) : FileTree → List String
  | file _ => [path]
  | sink => []
  | directory entries => if (Path.check path).isOk then filesIn path entries else []

/-- The paths of the files below the entries of a directory.  What has no name is not come to. -/
def filesIn (path : String) : List (String × FileTree) → List String
  | [] => []
  | (name, child) :: rest =>
    if name.isEmpty then filesIn path rest
    else filesAt (Path.join path name) child ++ filesIn path rest

end

/-- The paths of the files at a path and below it. -/
def filesBelow (tree : FileTree) (path : String) : List String :=
  match resolve tree path with
  | .ok place => ((node? tree place).map (filesAt path)).getD []
  | .error _ => []

/-- The operations on the files of a tree. -/
def files : Files (StateM FileTree) where
  read path := do return (← get).read path
  write path text := do
    match (← get).write path text.toUTF8.data with
    | .ok tree => set tree; return .ok ()
    | .error e => return .error e
  present path := do return ((← get).resolve path).isOk
  below path := do return (← get).filesBelow path

/-! ## Setting up -/

/-- Makes one step of a path, and makes the directory that it leads to unless it is there. -/
def enterMaking (state : FileTree × List String) (component : String) : FileTree × List String :=
  let (tree, here) := state
  if component = ".." then (tree, here.dropLast)
  else
    let place := here ++ [component]
    (if (node? tree place).isSome then tree else put tree place (.directory []), place)

/-- The tree with a file at a path.  The directories on the way are made as the path comes to them,
those that it leaves again by `..` included. -/
def add (tree : FileTree) (path : String) (content : Bytes) : FileTree :=
  let components := Path.components path
  let (tree, parent) := components.dropLast.foldl enterMaking (tree, start path)
  put tree (parent ++ components.getLast?.toList) (.file content)

end FileTree
end RoomScript
