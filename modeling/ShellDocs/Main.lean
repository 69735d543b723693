import ShellDocs.Command.Run

/-!
# The program

The outer layer reads what a run needs of the machine, runs the command and carries out its
outcome. It takes in the files of the current directory and those that the command line and the
configuration name. It starts no other program, so every lookup finds its shell missing, and it
prints what a pager would be given.
-/

namespace ShellDocs.Program

/-- The location of a path, as seen from the current directory. -/
def locate (cwd : Location) (path : Text) : Location := ((Path.ofText path).resolve cwd).parts

/-- The tree with the file or directory that stands at a path. -/
def takeIn (cwd : Location) (tree : Tree) (path : Text) : IO Tree := do
  let place := (← IO.currentDir) / String.ofList path
  if ← place.isDir then
    return tree.plant (locate cwd path) .directory
  else if ← place.pathExists then
    let content ← IO.FS.readBinFile place
    return tree.plant (locate cwd path) (.file content.toList)
  else
    return tree

/-- The variables that the program reads. -/
def readEnvironment : IO Environment := do
  let mut found : Environment := []
  for name in ["DOCSH_CONFIG", "NO_COLOR", "COLUMNS"] do
    if let some value ← IO.getEnv name then
      found := found ++ [(name.toList, value.toList)]
  return found

/-- The disk with the files that a command line may need. -/
def readDisk (environment : Environment) (line : List Text) : IO Disk := do
  let here ← IO.currentDir
  let cwd := (Path.ofText here.toString.toList).parts
  let home := ((← IO.getEnv "HOME").getD "/").toList
  let start : Disk := ⟨(Tree.empty.plant cwd .directory).plant (Path.ofText home).parts .directory,
    cwd, { home := home }⟩
  let mut tree := start.tree
  for entry in ← here.readDir do
    tree ← takeIn cwd tree entry.fileName.toList
  for argument in line do
    tree ← takeIn cwd tree (Path.expandHomeText start.user argument)
  if let .ok path := Config.impliedPath start environment then
    tree ← takeIn cwd tree path.toText
  return { start with tree := tree }

/-- Writes the files that a run has changed. -/
def carryOut (before after : Tree) : IO Unit := do
  let here ← IO.currentDir
  for (location, content?) in before.changes after do
    let place := here / String.ofList (Path.toText ⟨['/'], location⟩)
    match content? with
    | some content => do
        if let some directory := place.parent then IO.FS.createDirAll directory
        IO.FS.writeBinFile place ⟨content.toArray⟩
    | none => IO.FS.removeFile place

end ShellDocs.Program

open ShellDocs ShellDocs.Program

/-- Runs the command. -/
def main (arguments : List String) : IO UInt32 := do
  let line := arguments.map String.toList
  let environment ← readEnvironment
  let disk ← readDisk environment line
  let stdout ← IO.getStdout
  let input ← if line.contains ['-'] then do
      pure ((← (← IO.getStdin).readToEnd).toList)
    else pure []
  let outcome := Command.run
    { disk := disk
      environment := environment
      input := Text.uniformNewlines input
      terminal := ← stdout.isTty
      shell := fun _ => .missing } line
  carryOut disk.tree outcome.disk.tree
  (← IO.getStderr).putStr (String.ofList outcome.errors)
  stdout.putStr (String.ofList outcome.output)
  for page in outcome.paged do
    stdout.putStr (String.ofList (if page.styling = some false then Render.stripStyles page.text
      else page.text))
  return UInt32.ofNat outcome.status
