import FlowScript.CommandLine

/-! The program. It takes in the part of the disk that a command can reach, and removes from the disk
what the command has removed. -/
namespace FlowScript.Disk

def placeOf (path : String) : Location := (Text.split '/' path).filter (!·.isEmpty)

/-- Where a place really is, with no link on the way. -/
def realPlace? (l : Location) : IO (Option Location) := do
  try
    let path ← IO.FS.realPath (FileTree.pathOf l).text
    return some (placeOf (toString path))
  catch _ => return none

/-- Takes in a place that is no link, and the directories above it. -/
def takeInPlace (files : FileTree) (l : Location) : IO FileTree := do
  let above := (List.range l.length).tail.foldl (fun files n =>
    if (files.node? (l.take n)).isSome then files else files.put (l.take n) .directory) files
  try
    let content ← IO.FS.readBinFile (FileTree.pathOf l).text
    return above.put l (.file content)
  catch _ => return if (above.node? l).isSome then above else above.put l .directory

/-- Takes in all that a path passes, and answers where it leads. -/
def takeIn (files : FileTree) (l : Location) : List String → IO (FileTree × Location)
  | [] => return (files, l)
  | part :: rest => do
    if part.isEmpty || part == "." then takeIn files l rest
    else if part == ".." then takeIn files l.dropLast rest
    else
      match ← realPlace? (l ++ [part]) with
      | none => return (files, l)
      | some real =>
        let place := l ++ [part]
        let files := if real = place then files else files.put place (.link (FileTree.pathOf real))
        takeIn (← takeInPlace files real) real rest

def takeInPath (files : FileTree) (p : Path) : IO FileTree := do
  return (← takeIn files (if p.isAbsolute then [] else files.workingDirectory) p.parts).1

/-- Takes in a directory with the names in it. -/
def takeInDirectory (files : FileTree) (p : Path) : IO FileTree := do
  let files ← takeInPath files p
  match files.directory? p with
  | none => return files
  | some l =>
    let directory ← IO.FS.realPath (FileTree.pathOf l).text
    return (← directory.readDir).foldl
      (fun files entry => files.put (l ++ [entry.fileName]) .directory) files

/-- Removes what is gone, each tree at its top. -/
def removeGone (old new : FileTree) : IO Unit := do
  for (l, _) in old.entries do
    if (new.node? l).isNone && (new.node? l.dropLast).isSome then
      let path := (FileTree.pathOf l).text
      try IO.FS.removeFile path
      catch _ => IO.FS.removeDirAll path

def variableNames : List String :=
  ["TMPDIR", CacheConfig.enabledVariable, CacheConfig.capacityVariable, CacheConfig.periodVariable,
    CacheConfig.rootVariable]

def environment : IO (Entries String) :=
  variableNames.foldlM (fun found name => return (← IO.getEnv name).elim found (found.insert name)) []

/-- What a request to run a program depends on. -/
def surroundings (a : RunArguments) : IO Surroundings := do
  let start ← IO.monoNanosNow
  let ids (n : Nat) : String := toString start ++ "-" ++ toString n
  let environment ← environment
  let here ← takeInPlace .empty (placeOf (toString (← IO.currentDir)))
  let files := { here with workingDirectory := placeOf (toString (← IO.currentDir)) }
  let files ← (a.program :: a.config.toList).foldlM takeInPath files
  match CommandLine.config ⟨files, environment, ids⟩ a with
  | .error _ => return ⟨files, environment, ids⟩
  | .ok config => return ⟨← takeInDirectory files config.libraryRoot, environment, ids⟩

end FlowScript.Disk

open FlowScript in
def main (arguments : List String) : IO UInt32 := do
  let surroundings ←
    match Command.ofArguments arguments with
    | .run a => Disk.surroundings a
    | _ => pure ⟨.empty, [], toString⟩
  let result := CommandLine.run surroundings arguments
  Disk.removeGone surroundings.files result.files
  result.lines.forM fun line => IO.println line
  result.complaint.forM fun complaint => IO.eprintln ("Error: " ++ complaint)
  return result.status.toUInt32
