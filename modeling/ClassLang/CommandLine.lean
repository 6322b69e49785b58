import ClassLang.Build
import ClassLang.CommandLine.Directory
import ClassLang.CommandLine.Options
import ClassLang.Machine.Document
import ClassLang.Machine.Listing
import ClassLang.Report

/-! # The command line

Each input is read, built and written to its output in turn; the first failure ends the run. What is
printed on the way is text for a terminal. -/

namespace ClassLang.CommandLine

open Text (Styled plain)

/-! ## Compiling one text -/

/-- What comes of compiling one text: what is printed, and the file to write if all went well. -/
structure Attempt where
  /-- What is printed. -/
  printed : Styled
  /-- The path and the text of the output file. -/
  output? : Option (String × String)

namespace Options

variable (options : Options)

/-- Whether programs are shown. -/
def showsProgram : Bool := options.showProgram || options.verbose

/-- What is printed when a stage is reached. -/
def announce : Stage → Styled
  | .parsed program => if options.showsProgram then [plain program.source] else []
  | .analyzed analysis =>
    plain "2. Analyze\n" :: (if options.verbose then analysis.typeTable else [])
  | .optimized program =>
    plain "3. Optimize\n" :: (if options.showsProgram then [plain program.source] else [])
  | .compiling _ => [plain "4. Compile\n"]

/-- The form of the output. -/
def outputFormat : Format := options.format.getD .listing

/-- The path of the output for an input. -/
def outputPath (input : String) : String :=
  options.output.getD (input ++ options.outputFormat.suffix)

/-- The text of the output. -/
def outputText (artifact : Artifact) : Except DocumentFault String :=
  match options.outputFormat with
  | .listing => .ok artifact.listing
  | .yaml => artifact.document.map Text.Yaml.write

/-- What is printed about a rejected program. -/
def rejection (input source : String) (analysis : Analysis) : Styled :=
  let errors := analysis.errors.length
  let warnings := analysis.diagnostics.length - errors
  analysis.diagnostics.flatMap (fun diagnostic => diagnostic.report input source) ++
    (Notice.note (toString errors ++ " error(s), " ++ toString warnings ++
      " warning(s); stopping before code generation")).styled

/-- Compile the text of an input. -/
def compile (input source : String) : Attempt :=
  let build := Build.ofText (!options.keepAll) source
  let opening :=
    plain ("1. Parse " ++ input ++ "\n") ::
      (if options.showTokens || options.verbose then tokenTable (Token.scan source) else []) ++
      build.stages.flatMap options.announce
  match build.outcome with
  | .error fault => ⟨opening ++ fault.report input source, none⟩
  | .ok (.rejected analysis) => ⟨opening ++ rejection input source analysis, none⟩
  | .ok (.compiled _ artifact) =>
    let shown := opening ++ (if options.verbose then artifact.styledListing else [])
    match options.outputText artifact with
    | .ok text => ⟨shown, some (options.outputPath input, text)⟩
    | .error fault =>
      ⟨shown ++ (Notice.error ("Failed to serialize artifact: " ++ fault.message)).styled, none⟩

end Options

/-! ## Notices about files -/

/-- What is printed about an input that cannot be read. -/
def unreadable (input : String) (fault : FileFault) : Styled :=
  (Notice.error ("IO error: " ++ fault.message)).styled ++
    (Notice.note ("while reading " ++ input)).styled

/-- What is printed about an output that cannot be written. -/
def unwritable (output : String) (fault : FileFault) : Styled :=
  (Notice.error ("Failed to write " ++ output ++ ": " ++ fault.message)).styled

/-- What is printed when an output was written. -/
def success (input output : String) : Styled :=
  (Notice.note ("Successfully compiled " ++ input ++ " to " ++ output)).styled

/-- What is printed if one output is named for several inputs. -/
def ambiguousOutput : Styled :=
  (Notice.error "--output cannot be used with multiple inputs").styled

/-- Whether one output is named for several inputs. -/
def Options.isAmbiguous (options : Options) : Bool :=
  options.output.isSome && 1 < options.inputs.length

/-! ## Running in a directory -/

/-- What a run leaves behind. -/
structure Run where
  /-- The exit code. -/
  exit : Nat
  /-- What was printed. -/
  printed : String
  /-- The directory afterwards. -/
  directory : Directory

/-- Compile one input of a directory; the directory is returned only if all went well. -/
def compileIn (options : Options) (directory : Directory) (input : String) :
    Styled × Option Directory :=
  match directory.read input with
  | .error fault => (unreadable input fault, none)
  | .ok source =>
    let attempt := options.compile input source
    match attempt.output? with
    | none => (attempt.printed, none)
    | some (path, text) =>
      match directory.write path text with
      | .ok directory => (attempt.printed ++ success input path, some directory)
      | .error fault => (attempt.printed ++ unwritable path fault, none)

/-- Compile inputs of a directory in turn, up to the first that fails. -/
def compileAll (options : Options) (directory : Directory) : List String → Run
  | [] => ⟨0, "", directory⟩
  | input :: rest =>
    match compileIn options directory input with
    | (printed, none) => ⟨1, printed.render, directory⟩
    | (printed, some directory) =>
      let run := compileAll options directory rest
      { run with printed := printed.render ++ run.printed }

/-- Run the command line in a directory. Arguments that make no sense end the run with code two. -/
def run (arguments : List String) (directory : Directory) : Run :=
  match Options.ofArguments? arguments with
  | none => ⟨2, "", directory⟩
  | some options =>
    if options.isAmbiguous then ⟨1, ambiguousOutput.render, directory⟩
    else compileAll options directory options.inputs

end ClassLang.CommandLine
