import RuleLang.Command.Run

/-!
The program: it reads the files that its arguments may name, and its standard input where a dash
asks for it, and writes what the command gives.
-/
namespace RuleLang

def readPath (path : String) : IO (Except FileError (List UInt8)) := do
  try
    let content ← IO.FS.readBinFile path
    return .ok content.toList
  catch e =>
    match e with
    | .noFileOrDirectory .. => return .error .missing
    | .inappropriateType .. => return .error .isDirectory
    | _ => return .error .notDirectory

/-- The paths that an argument may give: itself, or what is behind an equals sign in it. -/
def pathsOf (argument : String) : List String :=
  let attached := String.ofList ((argument.toList.dropWhile (· ≠ '=')).drop 1)
  [argument, attached, (Path.ofString argument).toString, (Path.ofString attached).toString]

end RuleLang

open RuleLang in
def main (arguments : List String) : IO UInt32 := do
  let contents ← (arguments.flatMap pathsOf).mapM fun path => do
    return (path, ← readPath path)
  let stdin ←
    if arguments.contains Command.stdinArgument then
      pure (← (← IO.getStdin).readToEnd).toUTF8.toList
    else pure []
  let read : FileReader := fun path => (contents.lookup path).getD (.error .missing)
  let outcome := Command.run read stdin arguments
  (← IO.getStdout).putStr outcome.out
  (← IO.getStderr).putStr outcome.err
  return UInt32.ofNat outcome.code
