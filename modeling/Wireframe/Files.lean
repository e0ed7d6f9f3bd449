/-!
# Files

What a check asks of the files around it, and a file tree that can answer.

## Main definitions

* `FileError` — why a file cannot be read or written.
* `FileAccess` — the ways to ask for files.
* `FileTree` — files and directories as a value.
* `FileAccess.tree` — asking a file tree.
-/

namespace Wireframe

/-- Why a file cannot be read or written. -/
inductive FileError where
  | notFound
  | notDirectory
  | isDirectory
  | nameTooLong
  | invalidName
  | invalidText
  | other (reason : String)
  deriving DecidableEq, Repr

/-- The reason in words. -/
def FileError.message : FileError → String
  | .notFound => "No such file or directory (os error 2)"
  | .notDirectory => "Not a directory (os error 20)"
  | .isDirectory => "Is a directory (os error 21)"
  | .nameTooLong => "File name too long (os error 36)"
  | .invalidName => "file name contained an unexpected NUL byte"
  | .invalidText => "stream did not contain valid UTF-8"
  | .other reason => reason

/-- The ways to ask for files. -/
structure FileAccess (m : Type → Type) where
  /-- Whether there is a file or directory at a path. -/
  occupied : String → m Bool
  /-- The text of a file. -/
  read : String → m (Except FileError String)
  /-- Make a file with a text, or give a file a new text. -/
  write : String → String → m (Except FileError Unit)

/-! ### File trees -/

/-- The names from the root down. -/
abbrev FilePath :=
  List String

/-- A directory, or a file with its bytes. -/
inductive FileNode where
  | directory
  | file (content : ByteArray)

/-- What there is at every path, and where paths start that do not start at the root. -/
structure FileTree where
  nodes : List (FilePath × FileNode)
  workingDirectory : FilePath

namespace FileTree

/-- What there is at a path. The root is always there. -/
def node? (tree : FileTree) (path : FilePath) : Option FileNode :=
  if path = [] then some .directory else tree.nodes.lookup path

/-- Put something at a path. -/
def put (tree : FileTree) (path : FilePath) (node : FileNode) : FileTree :=
  { tree with nodes := (path, node) :: tree.nodes }

/-- The most bytes that a name can have. -/
def nameLimit : Nat :=
  255

/-- The number of bytes that the text of a path has to stay below. -/
def pathLimit : Nat :=
  4096

/-- Go on from a path by names. Only directories can be gone on from; the last name need not be
there. A missing name and a single point stay, two points go up. -/
def follow (tree : FileTree) : FilePath → List String → Except FileError FilePath
  | path, [] => .ok path
  | path, name :: names =>
    match tree.node? path with
    | none => .error .notFound
    | some (.file _) => .error .notDirectory
    | some .directory =>
      if name = "" ∨ name = "." then tree.follow path names
      else if name = ".." then tree.follow path.dropLast names
      else if nameLimit < name.utf8ByteSize then .error .nameTooLong
      else tree.follow (path ++ [name]) names

/-- The path that a text with the given names stands for. -/
def resolveNames (tree : FileTree) (text : String) (names : List String) :
    Except FileError FilePath :=
  if text.contains '\x00' then .error .invalidName
  else if pathLimit ≤ text.utf8ByteSize then .error .nameTooLong
  else if text.isEmpty then .error .notFound
  else tree.follow (if text.startsWith "/" then [] else tree.workingDirectory) names

/-- The path that a text stands for. A slash at the end asks for a directory. -/
def resolve (tree : FileTree) (text : String) : Except FileError FilePath :=
  tree.resolveNames text (text.splitOn "/")

/-- Whether there is something at a path. -/
def occupied (tree : FileTree) (text : String) : Bool :=
  match tree.resolve text with
  | .ok path => (tree.node? path).isSome
  | .error _ => false

/-- The text of a file. -/
def read (tree : FileTree) (text : String) : Except FileError String := do
  match tree.node? (← tree.resolve text) with
  | none => .error .notFound
  | some .directory => .error .isDirectory
  | some (.file content) =>
    match String.fromUTF8? content with
    | some content => .ok content
    | none => .error .invalidText

/-- The tree after a file is written. A path with a slash at the end can only be that of a
directory, even if there is nothing yet, as long as the directory around it is there. -/
def write (tree : FileTree) (text content : String) : Except FileError FileTree := do
  let names := text.splitOn "/"
  if text.endsWith "/" then
    let around := (names.reverse.dropWhile (·.isEmpty)).reverse.dropLast
    let _ ← tree.resolveNames text (around ++ ["."])
    .error .isDirectory
  else
    let path ← tree.resolveNames text names
    match tree.node? path with
    | some .directory => .error .isDirectory
    | _ => .ok (tree.put path (.file content.toUTF8))

end FileTree

/-- Asking a file tree, which changes only when a file is written. -/
def FileAccess.tree : FileAccess (StateM FileTree) where
  occupied text := return (← get).occupied text
  read text := return (← get).read text
  write text content := do
    match (← get).write text content with
    | .ok tree => set tree; return .ok ()
    | .error e => return .error e

end Wireframe
