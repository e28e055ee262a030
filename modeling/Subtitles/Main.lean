/-
# Main: the program on the operating system
-/
import Subtitles.Png
import Subtitles.Program
namespace Subtitles

set_option autoImplicit false

/-- Whether an operation ends without an error. -/
def works (operation : IO Unit) : IO Bool := do
  try
    operation
    return true
  catch _ => return false

/-- Files, directories and the error stream of the operating system. -/
def systemHost : Host IO where
  readText path := do
    try return some (← IO.FS.readFile path)
    catch _ => return none
  createDirectory path := works (IO.FS.createDirAll path)
  writePicture path width height pixels :=
    works (IO.FS.writeBinFile path ⟨Png.encode width height pixels⟩)
  say line := IO.eprintln line

end Subtitles

def main (arguments : List String) : IO UInt32 := do
  return (← Subtitles.Program.run Subtitles.systemHost arguments).code
