import TinyPascal.Report.Basic

/-!
# The command line

Checks one file and prints the report. Everything that is decided is decided by
`Report`; here the file is fetched and the clock is read.
-/

namespace TinyPascal.Main

set_option autoImplicit false

def usage : String :=
  "Usage: tinypascal [--show-ast] [--tokens] [-v|--verbose] [-t|--timing] [--analyze-broken] PATH"

/-- What the system has at `path`. -/
def fetch (path : String) : IO Contents := do
  try
    if ← (← IO.FS.realPath path).isDir then
      return .directory
    return .bytes (← IO.FS.readBinFile path)
  catch
    | .noFileOrDirectory .. => return .nothing
    | failure => throw failure

/-- Checks a file and times the phases. -/
def check (request : Request) : IO Report := do
  let begun ← IO.monoMsNow
  let file : SourceFile := ⟨request.path, ← fetch request.path⟩
  match file.read with
  | .error failure => return .ofFailure request.options file.path failure
  | .ok source =>
      let parsing ← IO.monoMsNow
      let parse ← IO.lazyPure fun _ => Parse.ofText source
      let analysing ← IO.monoMsNow
      let check ← IO.lazyPure fun _ => Check.ofParse request.options.analyzeBroken parse
      let done ← IO.monoMsNow
      return .ofCheck request.options file.path check
        ⟨analysing - parsing, done - analysing, done - begun⟩

end TinyPascal.Main

def main (arguments : List String) : IO UInt32 := do
  match TinyPascal.Request.ofArguments? arguments with
  | none =>
      IO.eprintln TinyPascal.Main.usage
      return 2
  | some request =>
      let report ← TinyPascal.Main.check request
      IO.print report.output
      IO.eprint report.errors
      return report.exitCode
