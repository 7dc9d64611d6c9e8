import StagedCompiler.Project.Command

/-!
# The program

Reads the arguments, works on the files of the current directory, and prints what comes out.
-/

namespace StagedCompiler

/-- The value of an action, or the text of the error that it raises. -/
def caught {α : Type} (act : IO α) : IO (Except String α) := do
  try
    return .ok (← act)
  catch e => return .error (toString e)

/-- The file system of the machine. -/
instance : FileStore IO where
  isPresent path := do
    return (← caught (IO.FS.realPath path.text)).toBool
  readText path := caught (IO.FS.readFile path.text)
  makeDirs path := caught (IO.FS.createDirAll path.text)
  writeText path content := caught (IO.FS.writeFile path.text content)

end StagedCompiler

/-- Run the command that the arguments ask for. -/
def main (args : List String) : IO UInt32 := do
  let exit ← StagedCompiler.Command.runArguments (m := IO) args
  IO.print exit.out
  IO.eprint exit.err
  return exit.code.toUInt32
