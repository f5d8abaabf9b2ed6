import DocTools.Command.Tool

/-! # The command line

`doctools TOOL ARGUMENTS` runs a tool on the current directory. The directory is read into a tree, the
tool turns it into another one, and what differs is written back. No program is started: the answer
of the build tool, where one is asked for, is what stands on standard input. -/
namespace DocTools.CommandLine
set_option autoImplicit false

/-- Reads what lies below a directory into a tree, so many levels deep. -/
def readBelow : Nat → Path → FileTree → IO FileTree
  | 0, _, tree => return tree
  | depth + 1, dir, tree => do
    let here ← IO.FS.realPath (String.ofList dir)
    (← here.readDir).foldlM (fun tree entry => do
      let path := dir.join entry.fileName.toList
      if ← entry.path.isDir then
        readBelow depth path (tree.makeDirectories path).1
      else
        match ← (IO.FS.readBinFile (String.ofList path)).toBaseIO with
        | .ok bytes => return (tree.write path (.ofBytes bytes.toList)).toOption.getD tree
        | .error _ => return tree) tree

def writeChanges (before after : FileTree) : IO Unit :=
  (before.changesSince after).forM fun (path, entry) =>
    match entry with
    | .directory => IO.FS.createDirAll (String.ofList path)
    | .file content => IO.FS.writeBinFile (String.ofList path) ⟨content.toBytes.toArray⟩

def readInput (stdin : IO.FS.Stream) : Nat → List UInt8 → IO (List UInt8)
  | 0, bytes => return bytes
  | rounds + 1, bytes => do
    let more ← stdin.read 1000000
    if more.isEmpty then return bytes else readInput stdin rounds (bytes ++ more.toList)

def runTool (tool : Command.Tool) (args : List Text) : IO UInt32 := do
  let answer ← match tool with
    | .listTargets => readInput (← IO.getStdin) 1000 []
    | _ => pure []
  let tree ← readBelow 100 ['.'] FileTree.empty
  let run := tool.run (fun _ => .ends 0 (.exit 0) answer []) tree args
  writeChanges tree run.tree
  let filter := Log.Filter.ofSetting ((← IO.getEnv "DOCTOOLS_LOG").map String.toList)
  (← IO.getStdout).putStr (String.ofList run.out)
  (← IO.getStderr).putStr (String.ofList (errorStream filter run.notices))
  return UInt32.ofNat run.code

def dispatch (args : List String) : IO UInt32 := do
  match args with
  | name :: rest =>
    match Command.Tool.ofName? name.toList with
    | some tool => runTool tool (rest.map String.toList)
    | none =>
      IO.eprintln (String.ofList ("no such tool: ".toList ++ name.toList))
      return 2
  | [] =>
    Command.Tool.all.forM fun tool => IO.println (String.ofList tool.usage.line)
    return 0

end DocTools.CommandLine

def main (args : List String) : IO UInt32 := DocTools.CommandLine.dispatch args
