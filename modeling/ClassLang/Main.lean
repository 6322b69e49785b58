import ClassLang.CommandLine

/-! # The program

Runs the command line on the files of the system. -/

namespace ClassLang.CommandLine

/-- The number of a system error, which some calls report negated. -/
def errorNumber (code : UInt32) : UInt32 := min code (0 - code)

/-- The reason why the system refuses a file. -/
def fileFault : IO.Error → FileFault
  | .noFileOrDirectory .. => .missing
  | .inappropriateType _ code _ => if errorNumber code = 21 then .isDirectory else .notDirectory
  | .invalidArgument file code details =>
    if errorNumber code = 36 then .nameTooLong
    else .other (toString (IO.Error.invalidArgument file code details))
  | other => .other (toString other)

/-- Read the text of a file. -/
def readText (path : String) : IO (Except FileFault String) := do
  try return Directory.decode (← IO.FS.readBinFile path)
  catch failure => return .error (fileFault failure)

/-- Write a text to a file. -/
def writeText (path text : String) : IO (Except FileFault Unit) := do
  try
    IO.FS.writeFile path text
    return .ok ()
  catch failure => return .error (fileFault failure)

/-- Print text for a terminal. -/
def printStyled (styled : Text.Styled) : IO Unit := do
  IO.print styled.render
  (← IO.getStdout).flush

/-- Compile one input; the result says whether all went well. -/
def compileInput (options : Options) (input : String) : IO Bool := do
  match ← readText input with
  | .error fault =>
    printStyled (unreadable input fault)
    return false
  | .ok source =>
    let attempt := options.compile input source
    printStyled attempt.printed
    match attempt.output? with
    | none => return false
    | some (path, text) =>
      match ← writeText path text with
      | .ok () =>
        printStyled (success input path)
        return true
      | .error fault =>
        printStyled (unwritable path fault)
        return false

/-- Compile inputs in turn, up to the first that fails. -/
def compileInputs (options : Options) : List String → IO UInt32
  | [] => return 0
  | input :: rest => do
    if ← compileInput options input then compileInputs options rest else return 1

end ClassLang.CommandLine

open ClassLang.CommandLine in
/-- Run the command line. -/
def main (arguments : List String) : IO UInt32 := do
  match Options.ofArguments? arguments with
  | none => return 2
  | some options =>
    if options.isAmbiguous then
      printStyled ambiguousOutput
      return 1
    else compileInputs options options.inputs
