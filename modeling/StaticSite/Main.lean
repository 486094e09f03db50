import StaticSite.Command.Run

/-!
# The program

The files that a command can touch are read into a tree, the command runs on that tree, and what it has
changed is written back.
-/
namespace StaticSite.Program

/-! ## Reading the machine -/

/-- The files that have been read, and the directories whose content has been. -/
structure Snapshot where
  files : FileTree
  seen : List RealPath

abbrev Reader := StateT Snapshot IO

def note (p : RealPath) (item : FileTree.Item) : Reader Unit :=
  modify fun s => { s with files := s.files.set p item }

def namesOf (path : FilePath) : RealPath :=
  (FilePath.parts path).filterMap fun part => match part with
    | .name n => some n
    | _ => none

/-- The real place of a path, if anything is there. -/
def realPlace? (path : FilePath) : IO (Option RealPath) := do
  try
    return some (namesOf (← IO.FS.realPath (String.ofList path)).toString.toList)
  catch _ => return none

/-- Notes the directories that lead to a real place. -/
def noteWay (p : RealPath) : Reader Unit :=
  (List.range p.length).forM fun n => if n = 0 then pure () else note (p.take n) .directory

/-- Goes along a path, notes the links on the way, and gives the place that it leads to. -/
def follow : RealPath → List FilePath.Part → Reader RealPath
  | p, [] => do
    noteWay p
    pure p
  | _, .root :: parts => follow [] parts
  | p, .up :: parts => follow p.dropLast parts
  | p, .here :: parts => follow p parts
  | p, .name n :: parts => do
    let place := p ++ [n]
    match ← realPlace? place.toPath with
    | some real =>
      if real != place then
        noteWay place
        note place (.link real.toPath)
      follow real parts
    | none => follow place parts

/-- Reads what stands at a place and below it. -/
partial def readBelow (p : RealPath) : Reader Unit := do
  if (← get).seen.contains p then return
  if (← realPlace? p.toPath) != some p then return
  let path ← IO.FS.realPath (String.ofList p.toPath)
  if ← path.isDir then
    note p .directory
    modify fun s => { s with seen := p :: s.seen }
    for entry in ← path.readDir do
      readBelow (← follow p [.name entry.fileName.toList])
  else
    note p (.file (← IO.FS.readBinFile path).toList)

def readPath (path : FilePath) : Reader Unit := do
  readBelow (← follow [] (FilePath.parts path))

/-- Reads the files that a build of a project or its removal can touch. -/
def readProject (setup : Setup) (project : Option FilePath) : Reader Unit := do
  let p ← follow [] (FilePath.parts (FilePath.join setup.directory (project.getD [])))
  if (← realPlace? p.toPath) != some p then return
  if ← (← IO.FS.realPath (String.ofList p.toPath)).isDir then
    note p .directory
    let root := p.toPath
    Config.fileNames.forM fun name => readPath (FilePath.join root name)
    match Config.load? (← get).files setup.environment root with
    | some config => (config.places root).toList.forM readPath
    | none => pure ()

/-- The files that a command can touch. -/
def filesFor (setup : Setup) (command : Option Command) : IO FileTree := do
  let reader : Reader Unit := do
    let _ ← follow [] (FilePath.parts setup.directory)
    match command with
    | some (.build project _) => readProject setup project
    | some (.clean project _) => readProject setup project
    | _ => pure ()
  let (_, s) ← reader.run ⟨.empty, []⟩
  return s.files

/-- The variables of the environment. -/
def environment : IO (List Setting.Variable) := do
  try
    let bytes := (← IO.FS.readBinFile "/proc/self/environ").toList
    return (Text.splitOn '\x00' (Text.ofAnyBytes bytes)).map fun entry =>
      let name := entry.takeWhile (· != '=')
      (name, entry.drop (name.length + 1))
  catch _ => return []

/-! ## Writing back -/

/-- Removes what is gone or has become something else, innermost first. -/
def removeOld (old new : FileTree) : IO Unit := do
  let gone := old.items.filter fun (p, item) => match item, new.get? p with
    | .file _, some (.file _) => false
    | item, found => found != some item
  for (p, item) in gone.mergeSort (fun a b => b.1.length ≤ a.1.length) do
    let path := String.ofList p.toPath
    match item with
    | .directory => IO.FS.removeDir path
    | _ => IO.FS.removeFile path

/-- Makes what is new, outermost first. -/
def makeNew (old new : FileTree) : IO Unit := do
  let made := new.items.filter fun (p, item) => old.get? p != some item
  for (p, item) in made.mergeSort (fun a b => a.1.length ≤ b.1.length) do
    let path := String.ofList p.toPath
    match item with
    | .directory => IO.FS.createDirAll path
    | .file content => IO.FS.writeBinFile path (ByteArray.mk content.toArray)
    | .link _ => pure ()

/-- Runs the program with some arguments, and gives the status that it ends with. -/
def run (args : List String) : IO UInt32 := do
  let setup : Setup := ⟨(← IO.currentDir).toString.toList, ← environment⟩
  let arguments := args.map String.toList
  let files ← filesFor setup (Command.parse? arguments)
  let outcome := Command.runArguments files setup arguments
  removeOld files outcome.files
  makeNew files outcome.files
  match outcome.result with
  | .ok lines => lines.forM fun line => IO.println (String.ofList line)
  | .error e => e.lines.forM fun line => IO.eprintln (String.ofList line)
  return UInt32.ofNat outcome.status

end StaticSite.Program

def main (args : List String) : IO UInt32 := StaticSite.Program.run args
