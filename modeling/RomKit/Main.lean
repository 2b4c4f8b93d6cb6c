import RomKit.Command.Parsers

/-!
# The command line

The first word names a tool, the others are for the tool. What lies along the paths
that the words name is loaded into a disk, the tool is run on it, and the files that
it changed are stored.
-/

namespace RomKit.Main

/-- What is found at a path. -/
inductive Found where
  | file (bytes : List UInt8)
  | directory
  /-- A link, with the path it leads to. -/
  | link (target : String)
  | nothing

/-- Looks at a path. A path through a link is not the path of what it leads to, and a directory
cannot be read as a file, and says so. -/
def probe (path : String) : IO Found := do
  try
    let target := (← IO.FS.realPath path).toString
    if target != path then return .link target
    let bytes ← IO.FS.readBinFile path
    return .file bytes.toList
  catch e =>
    match e with
    | .inappropriateType .. => return .directory
    | _ => return .nothing

/-- The path of an entry of a directory. -/
def entryPath (directory name : String) : String :=
  if directory == "/" then directory ++ name else directory ++ "/" ++ name

/-- The path of the directory above. -/
def parentPath (directory : String) : String :=
  "/" ++ "/".intercalate ((directory.splitOn "/").filter (· ≠ "")).dropLast

/-- Loads what lies along the parts of a path that starts in a directory, whose own path is given.
The number of steps is limited, since links may lead in a circle. -/
def loadAlong (disk : Disk) (i : NodeId) (directory : String) :
    (steps : Nat) → List String → IO Disk
  | 0, _ | _, [] => return disk
  | steps + 1, part :: parts => do
    match disk.node? i with
    | some (.directory parent entries) =>
      if !Path.isStep part then loadAlong disk i directory steps parts
      else if part == ".." then loadAlong disk parent (parentPath directory) steps parts
      else
        let name := Disk.nameOf part
        let path := entryPath directory part
        match entries.lookup name with
        | some j => loadAlong disk j path steps parts
        | none =>
          let next := disk.nodes.length
          match ← probe path with
          | .file bytes => return disk.addFile i name bytes
          | .directory => loadAlong (disk.addDirectory i name) next path steps parts
          | .link target =>
            let disk := disk.addLink i name (Utf8.encode target)
            loadAlong disk Disk.root "/" steps (target.splitOn "/" ++ parts)
          | .nothing => return disk
    | _ => return disk

/-- The greatest number of steps along a path. -/
def stepLimit : Nat := 10000

/-- Loads what lies along a path, which starts at the root or in the working directory. -/
def load (work : String) (disk : Disk) (typed : RawText) : IO Disk := do
  let some text := typed.string? | return disk
  match Path.rootOf typed with
  | .relative => loadAlong disk disk.work work stepLimit (text.splitOn "/")
  | .slash | .doubleSlash => loadAlong disk Disk.root "/" stepLimit (text.splitOn "/")

/-- A disk with the working directory alone. -/
def start (work : String) : IO Disk := do
  let parts := work.splitOn "/"
  let disk ← loadAlong .empty Disk.root "/" stepLimit parts
  match disk.walk Disk.linkLimit Disk.root (parts.map fun (part : String) => Disk.nameOf part) with
  | .ok (.node i) => return disk.workIn i
  | _ => return disk

/-- The files below a node, with their paths, down to a depth. -/
def filesBelow (disk : Disk) : (depth : Nat) → NodeId → String → List (String × NodeId)
  | 0, _, _ => []
  | depth + 1, i, path =>
    match disk.node? i with
    | some (.file _) => [(path, i)]
    | some (.directory _ entries) => entries.flatMap fun (name, j) =>
      match Utf8.decode name with
      | .ok name => filesBelow disk depth j (entryPath path name)
      | .error _ => []
    | _ => []

/-- Text for the error channel, which shows surrogates as escapes. -/
def shown (t : RawText) : String :=
  String.ofList (t.flatMap fun
    | .char c => [c]
    | .surrogate i => Text.quotedSurrogate i)

/-- Stores the files that a run changed, prints what it wrote, and gives its exit code. -/
def conclude (before : Disk) (r : Run) : IO UInt32 := do
  let after := r.world.disk
  for (path, i) in filesBelow after (after.nodes.length + 1) Disk.root "/" do
    if let some (.file bytes) := after.node? i then
      if before.node? i ≠ some (.file bytes) then IO.FS.writeBinFile path ⟨bytes.toArray⟩
  IO.print (shown r.world.out)
  IO.eprint (shown r.world.err)
  if let .uncaught e := r.ending then IO.eprintln e.message
  return UInt32.ofNat r.ending.status

/-- What the tools find. Nothing is known of the steps that lead to trouble. -/
def host : Host := ⟨.strict, fun _ => []⟩

/-- Runs a tool on the files that its paths name. -/
def runTool (paths : List RawText) (run : Disk → Run) : IO UInt32 := do
  let work := (← IO.FS.realPath ".").toString
  let disk ← paths.foldlM (load work) (← start work)
  conclude disk (run disk)

end RomKit.Main

open RomKit in
/-- Runs the tool that the first word names on the other words. -/
def main (words : List String) : IO UInt32 :=
  let rest := (words.drop 1).map RawText.ofString
  match words with
  | "neoasm" :: _ => Main.runTool (AssembleTool.paths rest) fun disk =>
    AssembleTool.run AssembleTool.parser Main.host disk rest
  | "neodisasm" :: _ => Main.runTool (DisassembleTool.paths rest) fun disk =>
    DisassembleTool.run DisassembleTool.parser Main.host disk rest
  | _ => do
    IO.eprintln "Usage: neoasm|neodisasm [OPTIONS] INPUT_FILE"
    return 2
