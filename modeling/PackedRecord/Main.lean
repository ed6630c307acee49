import PackedRecord.Tool.Generate
import PackedRecord.Tool.Lint
import PackedRecord.Tool.Show

/-! # The command line

    The first argument names the tool, the rest is for the tool.  Files that
    the arguments mention are read beforehand, so that a tool is a function
    of what it was given; what it changed is written afterwards. -/

namespace PackedRecord.Main

open Tool

/-- The paths that an argument may mean: itself, or what is attached to an
    option. -/
def mentioned (argument : String) : List String :=
  let text := argument.toList
  let attached := (text.dropWhile (· ≠ '=')).drop 1
  [argument, String.ofList attached, String.ofList (text.drop 2)].filter (· ≠ "")

/-- Adds what is found under a path. -/
def look (d : Directory) (path : String) : IO Directory := do
  try
    if ← (← IO.FS.realPath path).isDir then
      return { d with folders := Directory.steps path :: d.folders }
    else
      return d.put (Directory.steps path) (← IO.FS.readBinFile path)
  catch _ => return d

/-- The path cut off behind each of its parts, itself last. -/
def stations (path : String) : List String :=
  let parts := Directory.parts path
  (List.range parts.length).map fun k => "/".intercalate (parts.take (k + 1))

/-- What the arguments mention, and the folders on the way to it. -/
def survey (arguments : List String) : IO Directory :=
  ((arguments.flatMap mentioned).flatMap stations).foldlM look { files := [] }

/-- Prints an outcome and writes the files that changed. -/
def finish (before : Directory) (o : Outcome) : IO UInt32 := do
  for (path, content) in o.directory.changesSince before do
    IO.FS.writeBinFile path content
  (← IO.getStdout).putStr o.stdout
  (← IO.getStderr).putStr o.stderr
  return o.status.toUInt32

end PackedRecord.Main

open PackedRecord PackedRecord.Main in
/-- Runs the tool that the first argument names. -/
def main (arguments : List String) : IO UInt32 := do
  let d ← survey arguments
  let stdin : IO ByteArray := do (← IO.getStdin).readBinToEnd
  match arguments with
  | "gen_layout" :: rest =>
      let input ← if rest.contains "-" then stdin else pure .empty
      finish d (Tool.Generate.run rest d input)
  | "lint_table" :: rest =>
      let input ← if (Tool.Lint.Choice.ofArguments rest).paths = [] then stdin else pure .empty
      finish d (Tool.Lint.run rest d input)
  | "dump_record" :: rest => finish d (Tool.Show.run rest d)
  | _ =>
      (← IO.getStderr).putStrLn "usage: gen_layout | lint_table | dump_record, then its arguments"
      return 2
