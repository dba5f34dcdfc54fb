import Intake.Load
import Intake.Path

/-!
# File trees

A disk as a tree of directories.  Symbolic links hold paths; everything that is neither a directory
nor a link is a leaf, which is kept in a table so that several names may share it.  A directory is
named by its position: the names that lead to it from the root.

* `Node.at?`: the node at a position.
* `Node.walk`: where a path leads, links followed.
* `FileTree.disk`, `FileTree.workingDirectoryPath`: what loading sees of a file tree.
-/

namespace Intake

/-- The name of an entry of a directory. -/
abbrev Name := Path

/-- What reading a leaf gives. -/
inductive Content where
  /-- A regular file with its octets. -/
  | octets (octets : List UInt8)
  /-- A regular file that cannot be read. -/
  | unreadable (fault : SystemError)
  /-- A pipe or a device. -/
  | special
deriving DecidableEq

/-- A node that has neither entries nor a target. -/
structure Leaf where
  /-- Its permission bits. -/
  mode : Nat
  content : Content
deriving DecidableEq

/-- A node of a file tree. -/
inductive Node where
  /-- The leaf with a number. -/
  | leaf (number : Nat)
  /-- A directory with its permission bits and its entries. -/
  | directory (mode : Nat) (entries : List (Name × Node))
  /-- A symbolic link with the path that it holds. -/
  | link (target : Path)

/-- The names that lead from the root to a node. -/
abbrev Position := List Name

/-- The path of a position. -/
def Position.path : Position → Path
  | [] => Path.root
  | names => names.flatMap (Path.slash :: ·)

namespace Node

/-- The entry of a directory under a name. -/
def child? : Node → Name → Option Node
  | directory _ entries, name => entries.lookup name
  | _, _ => none

/-- The node at a position below a node. -/
def at? : Node → Position → Option Node
  | node, [] => some node
  | node, name :: names => (node.child? name).bind (·.at? names)

/-- Whether a node is a directory. -/
def isDirectory : Node → Bool
  | directory .. => true
  | _ => false

/-! ### Walking -/

/-- What a walk asks of the nodes that it passes. -/
structure Passage where
  /-- Whether a walk may look up an entry of the node, or go up from it. -/
  enter : Node → Bool
  /-- Whether a walk may go on at the node after an empty piece. -/
  stay : Node → Bool

/-- Walks the pieces of a path from a position.  A link is followed by the walk of its target's
pieces and those that are left. -/
def walkPieces (passage : Passage) (follow : Position → List Path → Option Position)
    (root : Node) (here : Position) : List Path → Option Position
  | [] => some here
  | piece :: more =>
    match root.at? here with
    | none => none
    | some node =>
      if piece = [] then
        if passage.stay node then walkPieces passage follow root here more else none
      else if !passage.enter node then none
      else if piece = [Path.dot] then walkPieces passage follow root here more
      else if piece = [Path.dot, Path.dot] then
        walkPieces passage follow root here.dropLast more
      else match node.child? piece with
        | none => none
        | some (link target) =>
          follow (if target.isAbsolute then [] else here) (target.pieces ++ more)
        | some _ => walkPieces passage follow root (here ++ [piece]) more

/-- Walks the pieces of a path from a position, following at most so many links. -/
def walk (passage : Passage) (root : Node) : Nat → Position → List Path → Option Position
  | 0 => walkPieces passage (fun _ _ => none) root
  | links + 1 => walkPieces passage (walk passage root links) root

end Node

/-- The links that one walk may follow. -/
def linkLimit : Nat := 40

/-- The octets that a path may have to be looked up. -/
def pathLimit : Nat := 4095

/-- The permission bit that lets the owner write. -/
def ownerWrite : Nat := 0o200

/-- The permission bit that lets the owner enter a directory. -/
def ownerEnter : Nat := 0o100

/-- A file tree and the working directory in it, which may have been removed. -/
structure FileTree where
  root : Node
  leaves : List Leaf
  workingDirectory : Option Position

namespace FileTree

/-- The walk of an ordinary user, who enters a directory only if its owner may. -/
def userPassage : Node.Passage where
  enter
    | .directory mode _ => mode &&& ownerEnter != 0
    | _ => false
  stay := Node.isDirectory

/-- The node that an absolute path leads to. -/
def node? (tree : FileTree) (path : Path) : Option Node :=
  if path.length ≤ pathLimit then
    (tree.root.walk userPassage linkLimit [] path.pieces).bind tree.root.at?
  else none

/-- What is known about a node. -/
def status? (tree : FileTree) : Node → Option Status
  | .leaf number => (tree.leaves[number]?).map fun leaf => ⟨leaf.content != .special, leaf.mode⟩
  | .directory mode _ => some ⟨false, mode⟩
  | .link _ => none

/-- What is known about the node that an absolute path leads to. -/
def stat (tree : FileTree) (path : Path) : Option Status := (tree.node? path).bind tree.status?

/-- Whether permission bits let the owner read and write. -/
def readAndWrite (status : Status) : Bool :=
  status.mode &&& ownerRead != 0 && status.mode &&& ownerWrite != 0

/-- The text of the fault that nothing is at a path. -/
def noSuchFile : SystemError := ⟨"No such file or directory (os error 2)"⟩

/-- The octets of the file that an absolute path leads to. -/
def readLeaf (tree : FileTree) (path : Path) : Except SystemError (List UInt8) :=
  match tree.node? path with
  | some (.leaf number) =>
    match tree.leaves[number]? with
    | some ⟨_, .octets octets⟩ => .ok octets
    | some ⟨_, .unreadable fault⟩ => .error fault
    | _ => .error noSuchFile
  | _ => .error noSuchFile

/-- What loading sees of a file tree. -/
def disk (tree : FileTree) : Disk where
  stat := tree.stat
  mayReadAndWrite path := (tree.stat path).any readAndWrite
  read := tree.readLeaf

/-- The path of the working directory. -/
def workingDirectoryPath (tree : FileTree) : Except SystemError Path :=
  match tree.workingDirectory with
  | some position => .ok position.path
  | none => .error noSuchFile

end FileTree
end Intake
