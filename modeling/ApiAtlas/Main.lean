import ApiAtlas.CommandLine

namespace ApiAtlas

/-- What there is of a file; that it can be made is found out by making it. -/
def inspectFile (name : String) : IO FileState :=
  tryCatch (FileState.text <$> IO.FS.readFile name) fun
    | .noFileOrDirectory .. => pure (.missing true)
    | _ => pure .unreadable

/-- Write the file of an outcome, and tell whether that went well. -/
def writeOutcome (outcome : Outcome) : IO Bool :=
  match outcome.written with
  | none => pure true
  | some (name, content) =>
    tryCatch (do IO.FS.writeFile name content; pure true) fun _ => pure false

end ApiAtlas

open ApiAtlas in
/-- Run a command line. -/
def main (words : List String) : IO UInt32 := do
  let names := match CommandLine.parse words with
    | some invocation => CommandLine.Invocation.files invocation
    | none => []
  let states ← names.mapM fun name => do
    pure (name, ← inspectFile name)
  let outcome := CommandLine.run words fun name => (states.lookup name).getD (.missing true)
  let outcome :=
    if ← writeOutcome outcome then outcome
    else CommandLine.run words fun name =>
      match (states.lookup name).getD (.missing true) with
      | .missing _ => .missing false
      | _ => .unreadable
  IO.print outcome.stdout
  IO.eprint outcome.stderr
  pure outcome.exit.toUInt32
