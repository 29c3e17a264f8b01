import Minify.Bundle.Manifest
import Minify.CommandLine
import Minify.Version

/-!
Running a command. The answer goes to the output as lines, or as one line of JSON if that is asked
for.
-/

namespace Minify.CommandLine

structure Outcome where
  exit : UInt32 := 0
  output : List String := []
  errors : List String := []
  deriving DecidableEq, Repr

/-- A number of bytes in units of 1024 with one place, a tie going to the even digit. -/
def kilobytes (n : Nat) : String :=
  let tenths := 10 * n / 1024
  let rest := 2 * (10 * n % 1024)
  let rounded := if rest > 1024 || (rest == 1024 && tenths % 2 == 1) then tenths + 1 else tenths
  toString (rounded / 10) ++ "." ++ toString (rounded % 10)

def summary (r : BundleReport) : String :=
  "  " ++ toString r.inputs ++ " files -> " ++ r.output ++ " (" ++ kilobytes r.bytesIn ++ "KB -> "
    ++ kilobytes r.bytesOut ++ "KB"

def errorField : Except BundleError α → List (String × Json)
  | .ok _ => []
  | .error e => [("error", .obj [("code", .str e.code), ("message", .str e.message),
      ("path", .str e.path)])]

def errorLines (e : BundleError) : List String :=
  ("error: " ++ e.message) ::
    match e.offset? with
    | some n => ["  at byte " ++ toString n ++ " of the joined input"]
    | none => []

def packOutcome (json : Bool) (b : Bundle) (result : Except BundleError BundleReport)
    (elapsed : Nat) : Outcome :=
  if json then
    let (map, bytesIn, bytesOut) := match result with
      | .ok r => ([("map", Json.str r.map)], r.bytesIn, r.bytesOut)
      | .error _ => ([], 0, 0)
    { exit := if result.isOk then 0 else 1
      output := [Json.text (.obj (
        [("ok", .bool result.isOk), ("inputs", .arr (b.inputs.map .str)), ("output", .str b.output)]
        ++ map ++ [("bytes_in", .int bytesIn), ("bytes_out", .int bytesOut),
          ("duration_ms", .int elapsed)] ++ errorField result))] }
  else
    match result with
    | .ok r => { output := [summary r ++ ", " ++ toString elapsed ++ "ms)", "    + " ++ r.map] }
    | .error e => { exit := 1, errors := errorLines e }

def buildOutcome (json : Bool) (manifest : String)
    (result : Except BundleError (List BundleReport)) (elapsed : Nat) : Outcome :=
  if json then
    { exit := if result.isOk then 0 else 1
      output := [Json.text (.obj (
        [("ok", .bool result.isOk), ("manifest", .str manifest),
          ("bundles", .arr ((result.toOption.getD []).map BundleReport.toJson)),
          ("duration_ms", .int elapsed)] ++ errorField result))] }
  else
    match result with
    | .ok rs =>
      { output := rs.map (summary · ++ ")") ++
          ["Built " ++ toString rs.length ++ " bundles in " ++ toString elapsed ++ "ms"] }
    | .error e => { exit := 1, errors := errorLines e }

def usage : List String := [
  "Usage: packr [-v] [--json] [--cwd PATH] [COMMAND]",
  "",
  "Commands:",
  "  version                  print the version (the default)",
  "  pack INPUT... -o OUTPUT  join scripts and pack them into one file",
  "       [--shrink-vars] [--private] [--base62] [--protect NAMES] [--header TEXT] [--radix N]",
  "  build [MANIFEST]         build every bundle that a manifest lists",
  "  help                     print this text"]

variable {m : Type → Type} [Monad m] [FileStore m]

def timed (clock : m Nat) (x : m α) : m (α × Nat) := do
  let start ← clock
  let result ← x
  let stop ← clock
  return (result, stop - start)

/-- Runs a command; `here` is the path of the working directory. -/
def Command.run (clock : m Nat) (here : String) (c : Command) : m Outcome := do
  let dir := c.workingDirectory.getD here
  match c.task with
  | .version => return { output := [versionLine] }
  | .help => return { output := usage }
  | .pack inputs output header options =>
    let b := Bundle.within dir ⟨inputs, output, header, options⟩
    let (result, elapsed) ← timed clock b.build.run
    return packOutcome c.json b result elapsed
  | .build manifest =>
    let path := Path.join dir (manifest.getD Manifest.defaultName)
    let (result, elapsed) ← timed clock (Manifest.build path).run
    return buildOutcome c.json path result elapsed

def run (clock : m Nat) (here : String) (args : List String) : m Outcome :=
  match Command.ofArgs? args with
  | some c => c.run clock here
  | none => return { exit := 2, errors := usage }

end Minify.CommandLine
