import TrafficIndicator.Text.Loose
import TrafficIndicator.Time.Rounded
/-!
Files and directories, and where a path leads. A path is walked name by name from the place
where one stands; the directories above a place are remembered, so that two dots lead back.
-/
namespace TrafficIndicator

/-- A file or a directory, with the stamp of its last change. -/
inductive FileNode where
  | file (content : ByteArray) (stamp : Stamp)
  | directory (entries : List (LooseText × FileNode)) (stamp : Stamp)

namespace FileNode

def stamp : FileNode → Stamp
  | .file _ s => s
  | .directory _ s => s

def isDirectory : FileNode → Bool
  | .file .. => false
  | .directory .. => true

def content? : FileNode → Option ByteArray
  | .file bytes _ => some bytes
  | .directory .. => none

def entry? (n : FileNode) (name : LooseText) : Option FileNode :=
  match n with
  | .file .. => none
  | .directory entries _ => entries.lookup name

/-- The directory in which a name stands for something else, or for nothing, from a time on. A
file that is written anew in its place does not change the directory itself. -/
def put (n : FileNode) (name : LooseText) (node : Option FileNode) (time : Stamp) : FileNode :=
  match n with
  | .file .. => n
  | .directory entries stamp =>
    let others := entries.filter fun (other, _) => other ≠ name
    let stamp := match (entries.lookup name), node with
      | none, none => stamp
      | some (.file ..), some (.file ..) => stamp
      | _, _ => time
    .directory ((node.toList.map fun new => (name, new)) ++ others) stamp

end FileNode

structure Place where
  node : FileNode
  /-- The directories above, the nearest first. -/
  above : List FileNode := []

namespace Place

/-- One directory up; the topmost one has nothing above it. -/
def up (p : Place) : Place :=
  match p.above with
  | [] => p
  | n :: ns => ⟨n, ns⟩

def top (p : Place) : Place := ⟨p.above.getLast?.getD p.node, []⟩

/-- One step along a path. From a file there is none, not even one that stays. -/
def step (p : Place) (name : LooseText) : Option Place :=
  if !p.node.isDirectory then none
  else if name = "" ∨ name = "." then some p
  else if name = ".." then some p.up
  else (p.node.entry? name).map fun n => ⟨n, p.node :: p.above⟩

def walk (p : Place) : List LooseText → Option Place
  | [] => some p
  | name :: names => (p.step name).bind fun q => q.walk names

/-- What lies at a path. One that begins with a slash starts from the top, and one that ends
with a slash leads to a directory. -/
def node? (p : Place) (path : LooseText) : Option FileNode :=
  if path.isEmpty then none
  else ((if path.startsWith "/" then p.top else p).walk (path.split '/')).map Place.node

def fresh : Place where
  node := .directory [] 0
  above :=
    let empty : FileNode := .directory [] 0
    let null : FileNode := .file .empty 0
    let system : List LooseText :=
      ["bin", "etc", "home", "lib", "opt", "proc", "root", "run", "sbin", "sys", "tmp", "usr",
        "var"]
    [empty, .directory (("dev", .directory [("null", null)] 0) :: system.map fun n => (n, empty)) 0]

end Place

end TrafficIndicator
