import SigningSchema.CommandLine.Run

-- The command line program.

namespace SigningSchema

def helpText : String :=
  "Generate typed-data registries, builders and value encoders from protobuf schemas\n\n"
    ++ "Usage: protosign [-v] <COMMAND>\n\n"
    ++ "  generate -s <SCHEMA_DIR> -o <OUT_DIR>\n"
    ++ "  inspect  -s <SCHEMA_DIR> [-t <TYPE_URL>]\n"
    ++ "  encode   -s <SCHEMA_DIR> -t <TYPE_URL> [-i <INPUT>]\n\n"
    ++ "All commands: [-c <CONFIG>] [--type-overrides <FILE>] [--field-defaults <FILE>]\n"

namespace SystemDisk

def succeeds (action : IO Unit) : IO Bool := do
  try
    action
    return true
  catch _ => return false

-- Links are not followed.
partial def filesBeneath (path : String) : IO (List String) := do
  let here ← IO.currentDir
  match (← (here / path).symlinkMetadata).type with
  | .dir =>
    let nested ← (← (here / path).readDir).toList.mapM fun entry =>
      filesBeneath (Path.join path entry.fileName)
    return nested.flatten
  | .file => return [path]
  | _ => return []

def disk : Disk IO where
  isDirectory path := do
    if path = "" then return false
    let here ← IO.currentDir
    (here / path).isDir
  filesBeneath? path := do
    if path = "" then return none
    try return some (← filesBeneath path)
    catch _ => return none
  read? path := do
    try return some (← IO.FS.readBinFile path)
    catch _ => return none
  makeDirectories path := do
    if path = "" then return true
    succeeds (IO.FS.createDirAll path)
  write path content := succeeds (IO.FS.writeBinFile path content)
  rename source target := succeeds (IO.FS.rename source target)
  removeFile path := do
    let _ ← succeeds (IO.FS.removeFile path)

end SystemDisk

def runWords (words : List String) : IO UInt32 := do
  match Command.ofWords words with
  | .error .help =>
    IO.print helpText
    return 0
  | .error .misuse =>
    IO.eprint helpText
    return 2
  | .ok command =>
    let typed : IO ByteArray := do (← IO.getStdin).readBinToEnd
    match ← (command.run SystemDisk.disk typed).run with
    | .ok output =>
      IO.print output
      return 0
    | .error error =>
      IO.eprintln ("Error: " ++ error.shown)
      return 1

end SigningSchema

def main (words : List String) : IO UInt32 := SigningSchema.runWords words
