import ParamLang.Inclusion.FileSystem

/-! A file system held in memory: files and folders under absolute paths, without links. -/
namespace ParamLang

inductive FileNode
  | folder
  | file (content : ByteArray)

/-- The nodes by path, the root's path being the empty one. A folder that holds a node need not be
listed. Relative paths start at the working folder. -/
structure FileTree where
  nodes : List (List Text × FileNode)
  working : List Text

namespace FileTree

def node? (tree : FileTree) (path : List Text) : Option FileNode :=
  match tree.nodes.find? fun n => n.1 == path with
  | some n => some n.2
  | none =>
    let holdsNode := tree.nodes.any fun n => path.isPrefixOf n.1
    if path = [] ∨ path = tree.working ∨ holdsNode then some .folder else none

def dots : Text := ['.', '.']

/-- Walks from a path along pieces. Each step must start at a folder and arrive at a node. -/
def walk (tree : FileTree) : List Text → List Text → Except FileFault (List Text)
  | here, [] => .ok here
  | here, piece :: rest =>
    match tree.node? here with
    | none => .error .notFound
    | some (.file _) => .error .notFolder
    | some .folder =>
      let there :=
        if Path.isIdle piece then here else if piece = dots then here.dropLast else here ++ [piece]
      match tree.node? there with
      | none => .error .notFound
      | some _ => tree.walk there rest

def locate (tree : FileTree) (path : Text) : Except FileFault (List Text) :=
  match path with
  | [] => .error .notFound
  | '/' :: body => tree.walk [] (Path.pieces body)
  | path => tree.walk tree.working (Path.pieces path)

def written (path : List Text) : Text := '/' :: Path.joinPieces path

def canonical (tree : FileTree) (path : Text) : Except FileFault Text :=
  (tree.locate path).map written

def read (tree : FileTree) (path : Text) : Except FileFault Text := do
  match tree.node? (← tree.locate path) with
  | none => .error .notFound
  | some .folder => .error .isFolder
  | some (.file content) =>
    match String.fromUTF8? content with
    | some s => .ok s.toList
    | none => .error .invalidText

def system (tree : FileTree) : FileSystem := ⟨tree.canonical, tree.read⟩

end FileTree

end ParamLang
