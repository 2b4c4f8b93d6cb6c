import RomKit.Files.Path
import RomKit.Text.Utf8

/-!
# Disks

A disk is a tree of directories below one root. Its nodes are numbered, and the
entries of a directory lead to nodes by name, so a file may have several names. Beside
files and directories there are links, which stand for another path, and devices,
which take or give bytes but hold no contents of their own. Files and directories are
open to everyone; a device may refuse to be opened. One directory is the working
directory, where relative paths start.

A path is walked name by name. Each step starts in a directory, and links are
followed on the way and at the end, but not too many of them. So a path leads to a
node, or to a free name in a directory (`Spot`), or nowhere.
-/

namespace RomKit

/-! ## Errors of the system -/

/-- The kinds of errors about files. -/
inductive SystemKind where
  | missing
  | permission
  | notDirectory
  | isDirectory
  | nameTooLong
  /-- A path with a character of value zero, which ends a path for the system. -/
  | zeroCharacter
  /-- A path that has no bytes. -/
  | notEncodable
  | other
deriving DecidableEq, Repr

/-- An error about files and its text. -/
structure SystemFault where
  kind : SystemKind
  message : String
deriving DecidableEq, Repr

/-- An error as the system reports it: its number and its words. -/
structure SystemError where
  number : Int
  words : String
deriving DecidableEq, Repr

namespace SystemError

/-- A name that leads nowhere. -/
def missing : SystemError := ⟨2, "No such file or directory"⟩

/-- A step out of something that is no directory. -/
def notDirectory : SystemError := ⟨20, "Not a directory"⟩

/-- A directory in place of a file. -/
def isDirectory : SystemError := ⟨21, "Is a directory"⟩

/-- A path that is too long or has a name that is. -/
def nameTooLong : SystemError := ⟨36, "File name too long"⟩

/-- Links that lead to links, and so on. -/
def tooManyLinks : SystemError := ⟨40, "Too many levels of symbolic links"⟩

end SystemError

namespace SystemFault

/-- The text of a system error: its number, its words, and the paths it is about. -/
def describe (code text : String) (paths : List RawText) : String :=
  "[Errno " ++ code ++ "] " ++ text
    ++ (if paths.isEmpty then "" else ": " ++ " -> ".intercalate (paths.map Text.quoted))

/-- The kind of the errors with a number. -/
def kindOf (code : Int) : SystemKind :=
  if code = 2 then .missing
  else if code = 1 ∨ code = 13 then .permission
  else if code = 20 then .notDirectory
  else if code = 21 then .isDirectory
  else if code = 36 then .nameTooLong
  else .other

/-- An error of the system about some paths. -/
def of (e : SystemError) (paths : List RawText) : SystemFault :=
  ⟨kindOf e.number, describe (toString e.number) e.words paths⟩

/-- A path with a character of value zero. -/
def zeroCharacter : SystemFault :=
  ⟨.zeroCharacter, "embedded null byte"⟩

/-- A path that has no bytes. -/
def notEncodable (fault : Utf8.EncodeFault) : SystemFault :=
  ⟨.notEncodable, fault.message⟩

end SystemFault

/-! ## Nodes -/

/-- A name in a directory. -/
abbrev FileName := List UInt8

/-- The number of a node. -/
abbrev NodeId := Nat

/-- Something that takes or gives bytes. -/
structure Device where
  /-- Why it cannot be opened, if so. -/
  refusal : Option SystemError
  /-- The bytes that it gives. -/
  contents : List UInt8
  /-- Why it cannot be read to the end, if so. -/
  readError : Option SystemError
  /-- Why it takes no bytes, if so. -/
  writeError : Option SystemError
deriving DecidableEq, Repr

/-- What is on a disk. -/
inductive Node where
  | file (bytes : List UInt8)
  /-- The directory above it, and what it holds. -/
  | directory (parent : NodeId) (entries : List (FileName × NodeId))
  /-- Another path. -/
  | link (target : List UInt8)
  | device (device : Device)
deriving DecidableEq, Repr

namespace Node

/-- The nodes that a directory leads to. -/
def leadsTo : Node → List NodeId
  | .directory parent entries => parent :: entries.map Prod.snd
  | _ => []

/-- Adds an entry to a directory. -/
def addEntry (entry : FileName × NodeId) : Node → Node
  | .directory parent entries => .directory parent (entries ++ [entry])
  | node => node

end Node

/-- The nodes of a disk, the root first. -/
structure Disk where
  nodes : List Node
  /-- The working directory. -/
  work : NodeId
  /-- Directories lead to nodes. -/
  closed : ∀ node ∈ nodes, ∀ i ∈ node.leadsTo, i < nodes.length
  placed : work < nodes.length
deriving DecidableEq, Repr

/-- Where a path leads: to a node, or to a name in a directory that is free. -/
inductive Spot where
  | node (id : NodeId)
  | vacant (directory : NodeId) (name : FileName)
deriving DecidableEq, Repr

/-- What a path leads to. -/
inductive NodeKind where
  | file
  | directory
  | device
deriving DecidableEq, Repr

namespace Disk

/-- The root. -/
def root : NodeId := 0

/-- A disk with an empty root, in which the work is done. -/
def empty : Disk where
  nodes := [.directory root []]
  work := root
  closed := by decide
  placed := by decide

/-- The node with a number. -/
def node? (d : Disk) (i : NodeId) : Option Node :=
  d.nodes[i]?

/-! ## Walking -/

/-- The greatest length of a name, in bytes. -/
def nameLimit : Nat := 255

/-- The greatest length of a path, in bytes. -/
def pathLimit : Nat := 4095

/-- The greatest number of links on the way along a path. -/
def linkLimit : Nat := 40

/-- The byte between the names of a path. -/
def slashByte : UInt8 := 0x2F

/-- The name of a directory in itself. -/
def selfName : FileName := [0x2E]

/-- The name of the directory above. -/
def parentName : FileName := [0x2E, 0x2E]

/-- Where the path of a link in a directory starts. -/
def linkStart (directory : NodeId) (target : List UInt8) : NodeId :=
  if target.head? = some slashByte then root else directory

/-- What a step along a name comes to. -/
inductive Step where
  /-- It leads to a node. -/
  | into (i : NodeId)
  /-- It leads to a link, and so along other names from a node. -/
  | through (i : NodeId) (names : List FileName)
  /-- The name is free. -/
  | free
  | stop (e : SystemError)
deriving DecidableEq, Repr

/-- A step from a directory to one of its entries. -/
def enter (d : Disk) (i j : NodeId) : Step :=
  match d.node? j with
  | some (.link target) => .through (linkStart i target) (Text.splitOn slashByte target)
  | _ => .into j

/-- A step from a node along a name. -/
def step (d : Disk) (i : NodeId) (name : FileName) : Step :=
  match d.node? i with
  | none => .stop .missing
  | some (.directory parent entries) =>
    if nameLimit < name.length then .stop .nameTooLong
    else if name = [] ∨ name = selfName then .into i
    else if name = parentName then .into parent
    else match entries.lookup name with
      | none => .free
      | some j => d.enter i j
  | some _ => .stop .notDirectory

/-- Walks from a node along names. At a link, `follow` walks on along the names that the link stands
for and those that are left. -/
def walkWith (d : Disk) (follow : NodeId → List FileName → Except SystemError Spot) :
    NodeId → List FileName → Except SystemError Spot
  | i, [] => .ok (.node i)
  | i, name :: names =>
    match d.step i name with
    | .into j => walkWith d follow j names
    | .through j more => follow j (more ++ names)
    | .free => if names = [] then .ok (.vacant i name) else .error .missing
    | .stop e => .error e

/-- Walks from a node along names, through a number of links at most. -/
def walk (d : Disk) : (links : Nat) → NodeId → List FileName → Except SystemError Spot
  | 0 => d.walkWith fun _ _ => .error .tooManyLinks
  | links + 1 => d.walkWith (d.walk links)

/-- Where a path starts. -/
def startOf (d : Disk) : PathRoot → NodeId
  | .relative => d.work
  | .slash | .doubleSlash => root

/-- The name that a part of a path stands for. The path has bytes, and so have its parts. -/
def nameOf (part : RawText) : FileName :=
  match Utf8.encodeName part with
  | .ok bytes => bytes
  | .error _ => []

/-- Where the parts of a path lead, for a path with the given text. The empty text leads
nowhere. -/
def locateAlong (d : Disk) (root : PathRoot) (parts : List RawText) (text : RawText) :
    Except SystemFault Spot :=
  match Utf8.encodeName text with
  | .error fault => .error (.notEncodable fault)
  | .ok bytes =>
    if bytes.contains 0 then .error .zeroCharacter
    else if bytes = [] then .error (.of .missing [text])
    else if pathLimit < bytes.length then .error (.of .nameTooLong [text])
    else match d.walk linkLimit (d.startOf root) (parts.map nameOf) with
      | .ok spot => .ok spot
      | .error e => .error (.of e [text])

/-- Where a path leads. -/
def locate (d : Disk) (path : Path) : Except SystemFault Spot :=
  d.locateAlong path.root path.parts path.text

/-- What is at a spot. -/
def kind? (d : Disk) : Spot → Option NodeKind
  | .vacant _ _ => none
  | .node i =>
    match d.node? i with
    | some (.file _) => some .file
    | some (.directory _ _) => some .directory
    | some (.device _) => some .device
    | _ => none

/-- What a path as typed leads to, without bringing it into normal form. -/
def stat (d : Disk) (typed : RawText) : Option NodeKind :=
  match d.locateAlong (Path.rootOf typed) (Path.typedParts typed) typed with
  | .ok spot => d.kind? spot
  | .error _ => none

/-! ## Reading and writing -/

/-- What is read from a file or a device: bytes, and perhaps an error after them. -/
structure Contents where
  bytes : List UInt8
  fault : Option SystemFault
deriving DecidableEq, Repr

/-- Opens and reads what is at a spot that a path with the given text leads to. -/
def readAt (d : Disk) (text : RawText) : Spot → Except SystemFault Contents
  | .vacant _ _ => .error (.of .missing [text])
  | .node i =>
    match d.node? i with
    | some (.file bytes) => .ok ⟨bytes, none⟩
    | some (.device device) =>
      match device.refusal with
      | some e => .error (.of e [text])
      | none => .ok ⟨device.contents, device.readError.map (.of · [])⟩
    | some (.directory _ _) => .error (.of .isDirectory [text])
    | _ => .error (.of .missing [text])

/-- Opens and reads a file or a device. -/
def read (d : Disk) (path : Path) : Except SystemFault Contents :=
  match d.locate path with
  | .error fault => .error fault
  | .ok spot => d.readAt path.text spot

theorem closed_set {nodes : List Node}
    (h : ∀ node ∈ nodes, ∀ i ∈ node.leadsTo, i < nodes.length) (i : NodeId)
    (bytes : List UInt8) :
    ∀ node ∈ nodes.set i (.file bytes), ∀ j ∈ node.leadsTo,
      j < (nodes.set i (.file bytes)).length := by
  intro node hnode j hj
  rw [List.length_set]
  rcases List.mem_or_eq_of_mem_set hnode with hold | rfl
  · exact h node hold j hj
  · cases hj

theorem mem_leadsTo_addEntry {i : NodeId} {entry : FileName × NodeId} {node : Node}
    (h : i ∈ (node.addEntry entry).leadsTo) : i ∈ node.leadsTo ∨ i = entry.2 := by
  cases node with
  | directory parent entries =>
      rw [Node.addEntry, Node.leadsTo, List.map_append, ← List.cons_append] at h
      rcases List.mem_append.mp h with hold | hnew
      · exact Or.inl hold
      · exact Or.inr (List.mem_singleton.mp hnew)
  | file bytes => cases h
  | link target => cases h
  | device device => cases h

theorem closed_add {nodes : List Node}
    (h : ∀ node ∈ nodes, ∀ i ∈ node.leadsTo, i < nodes.length) (directory : NodeId)
    (name : FileName) {added : Node} (hadded : ∀ i ∈ added.leadsTo, i < nodes.length) :
    ∀ node ∈ nodes.modify directory (Node.addEntry (name, nodes.length)) ++ [added],
      ∀ i ∈ node.leadsTo,
        i < (nodes.modify directory (Node.addEntry (name, nodes.length)) ++ [added]).length := by
  intro node hnode i hi
  rw [List.length_append, List.length_modify, List.length_singleton]
  rcases List.mem_append.mp hnode with hold | hnew
  · obtain ⟨j, hj⟩ := List.mem_iff_getElem?.mp hold
    rw [List.getElem?_modify] at hj
    obtain ⟨before, hbefore, heq⟩ := Option.map_eq_some_iff.mp hj
    have hmem := List.mem_of_getElem? hbefore
    by_cases hj : directory = j
    · rw [if_pos hj] at heq
      subst heq
      rcases mem_leadsTo_addEntry hi with hi | rfl
      · exact Nat.lt_succ_of_lt (h before hmem i hi)
      · exact Nat.lt_succ_self _
    · rw [if_neg hj] at heq
      subst heq
      exact Nat.lt_succ_of_lt (h _ hmem i hi)
  · rw [List.mem_singleton.mp hnew] at hi
    exact Nat.lt_succ_of_lt (hadded i hi)

/-- Sets the contents of a file. -/
def setFile (d : Disk) (i : NodeId) (bytes : List UInt8) : Disk where
  nodes := d.nodes.set i (.file bytes)
  work := d.work
  closed := closed_set d.closed i bytes
  placed := by
    rw [List.length_set]
    exact d.placed

/-- Adds a node under a free name of a directory. -/
def add (d : Disk) (directory : NodeId) (name : FileName) (node : Node)
    (h : ∀ i ∈ node.leadsTo, i < d.nodes.length) : Disk where
  nodes := d.nodes.modify directory (Node.addEntry (name, d.nodes.length)) ++ [node]
  work := d.work
  closed := closed_add d.closed directory name h
  placed := by
    rw [List.length_append, List.length_modify]
    exact Nat.lt_add_right _ d.placed

/-- Adds a file under a free name of a directory. -/
def addFile (d : Disk) (directory : NodeId) (name : FileName) (bytes : List UInt8) : Disk :=
  d.add directory name (.file bytes) (List.forall_mem_nil _)

/-- Adds a link under a free name of a directory. -/
def addLink (d : Disk) (directory : NodeId) (name : FileName) (target : List UInt8) : Disk :=
  d.add directory name (.link target) (List.forall_mem_nil _)

/-- Adds an empty directory under a free name of a directory. -/
def addDirectory (d : Disk) (directory : NodeId) (name : FileName) : Disk :=
  if h : directory < d.nodes.length then
    d.add directory name (.directory directory []) (List.forall_mem_singleton.mpr h)
  else d

/-- The disk with another working directory. -/
def workIn (d : Disk) (i : NodeId) : Disk :=
  if h : i < d.nodes.length then { d with work := i, placed := h } else d

/-- Writes bytes at a spot that a path with the given text leads to. -/
def writeAt (d : Disk) (text : RawText) (bytes : List UInt8) : Spot → Except SystemFault Disk
  | .vacant directory name => .ok (d.addFile directory name bytes)
  | .node i =>
    match d.node? i with
    | some (.file _) => .ok (d.setFile i bytes)
    | some (.device device) =>
      match device.refusal with
      | some e => .error (.of e [text])
      | none =>
        if bytes = [] then .ok d
        else match device.writeError with
          | some e => .error (.of e [])
          | none => .ok d
    | some (.directory _ _) => .error (.of .isDirectory [text])
    | _ => .error (.of .missing [text])

/-- Writes a file, which need not exist, or to a device. -/
def write (d : Disk) (path : Path) (bytes : List UInt8) : Except SystemFault Disk :=
  match d.locate path with
  | .error fault => .error fault
  | .ok spot => d.writeAt path.text bytes spot

/-- The parts that lead to a file to be written. A slash at the end of a path asks for a directory:
then the last name is not looked up, and the walk ends in the directory around it. -/
def writingParts (parts : List RawText) : List RawText :=
  if parts.getLastD [] = [] then
    ((parts.reverse.dropWhile (· = [])).drop 1).reverse ++ [[Path.dot]]
  else parts

/-- Writes a file at a path as typed, without bringing the path into normal form. -/
def writeTyped (d : Disk) (typed : RawText) (bytes : List UInt8) : Except SystemFault Disk :=
  let parts := writingParts (Path.typedParts typed)
  match d.locateAlong (Path.rootOf typed) parts typed with
  | .error fault => .error fault
  | .ok spot => d.writeAt typed bytes spot

end Disk

end RomKit
