import CommandBlocks.CommandLine

namespace CommandBlocks

private def fileFault (fault : IO.Error) : FileFault :=
  match fault with
  | .noFileOrDirectory .. => .notFound
  | .inappropriateType _ code _ => if code = 20 then .notDirectory else .isDirectory
  | .permissionDenied _ code reason => .other s!"{reason} (os error {code})"
  | fault => .other (toString fault)

/-- Access to the files of the system. -/
def systemFiles : Files IO where
  read path := do
    try return .ok (← IO.FS.readBinFile path).data.toList
    catch fault => return .error (fileFault fault)
  write path bytes := do
    try
      IO.FS.writeBinFile path ⟨bytes.toArray⟩
      return .ok ()
    catch fault => return .error (fileFault fault)

/-- What is shown for arguments that make no command. -/
def usage : String :=
  "Usage: command-blocks kinds\n" ++
  "       command-blocks compile <canvas> [--restore] [--enforce-required] [--tree]" ++
  " [--snapshot <file>]\n" ++
  "       command-blocks inspect <snapshot> [--enforce-required] [--tree]"

end CommandBlocks

open CommandBlocks in
def main (args : List String) : IO UInt32 := do
  match Command.ofArguments args with
  | none =>
    IO.eprintln usage
    return 2
  | some command =>
    let outcome ← command.run systemFiles
    IO.print (Command.Outcome.output outcome)
    if let .error message := outcome then
      IO.eprintln s!"\nError: {message}"
    return Command.Outcome.status outcome
