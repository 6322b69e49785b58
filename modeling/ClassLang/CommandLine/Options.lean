/-! # Options of the command line

Options may stand anywhere among the inputs, each at most once. A short option may be followed by
others in the same argument, and the value of an option may be attached to it or be the next
argument. After two dashes everything is an input. -/

namespace ClassLang.CommandLine

/-- The form in which code is written to a file. -/
inductive Format where
  | listing
  | yaml
  deriving DecidableEq, Repr

/-- The format of a given name. -/
def Format.ofName? : String → Option Format
  | "listing" => some .listing
  | "yaml" => some .yaml
  | _ => none

/-- What an output file is called after its input. -/
def Format.suffix : Format → String
  | .listing => ".il"
  | .yaml => ".yaml"

/-- What the command line asks for; an option that was not given is absent or false. -/
structure Options where
  /-- The files to compile. -/
  inputs : List String := []
  /-- The file to write. -/
  output : Option String := none
  /-- The form of the output. -/
  format : Option Format := none
  /-- Whether simplification is left out. -/
  keepAll : Bool := false
  /-- Whether the tokens are shown. -/
  showTokens : Bool := false
  /-- Whether the program is shown. -/
  showProgram : Bool := false
  /-- Whether everything is shown. -/
  verbose : Bool := false
  deriving DecidableEq, Repr

namespace Options

/-- An option that takes a value. -/
inductive Valued where
  | output
  | format

variable (options : Options)

/-- Give an option its value; it must not have one, and the value must make sense. -/
def give? (value : String) : Valued → Option Options
  | .output => if options.output.isSome then none else some { options with output := some value }
  | .format =>
    if options.format.isSome then none
    else (Format.ofName? value).map fun format => { options with format := some format }

/-- Set an option without a value by its long name; it must not be set. -/
def flag? : String → Option Options
  | "no-optimize" => if options.keepAll then none else some { options with keepAll := true }
  | "tokens" => if options.showTokens then none else some { options with showTokens := true }
  | "ast" => if options.showProgram then none else some { options with showProgram := true }
  | "verbose" => if options.verbose then none else some { options with verbose := true }
  | _ => none

/-- The options after one argument, and the option that the next argument is the value of. -/
abbrev Step := Options × Option Valued

/-- Read a long option, with the value attached to it by an equals sign. -/
def long? (name : String) (attached : Option String) : Option Step :=
  let valued? : Option Valued :=
    match name with
    | "output" => some .output
    | "emit" => some .format
    | _ => none
  match valued?, attached with
  | some valued, some value => (options.give? value valued).map fun options => (options, none)
  | some valued, none => some (options, some valued)
  | none, some _ => none
  | none, none => (options.flag? name).map fun options => (options, none)

/-- Drop an equals sign before an attached value. -/
def withoutEquals : List Char → List Char
  | '=' :: rest => rest
  | characters => characters

/-- Read short options that share an argument. -/
def short? (options : Options) : List Char → Option Step
  | [] => some (options, none)
  | 'v' :: rest => do (← options.flag? "verbose").short? rest
  | ['o'] => some (options, some .output)
  | 'o' :: rest => do
    return (← options.give? (String.ofList (withoutEquals rest)) .output, none)
  | _ => none

/-- Whether an argument is an option rather than an input or a value. -/
def looksLikeOption (argument : String) : Bool :=
  match argument.toList with
  | '-' :: _ :: _ => true
  | _ => false

/-- Split a long option at its first equals sign. -/
def splitEquals (characters : List Char) : String × Option String :=
  let name := String.ofList (characters.takeWhile (· ≠ '='))
  match characters.dropWhile (· ≠ '=') with
  | [] => (name, none)
  | _ :: value => (name, some (String.ofList value))

/-- Read one argument other than two dashes. -/
def step? (argument : String) : Option Step :=
  match argument.toList with
  | '-' :: '-' :: rest =>
    let (name, attached) := splitEquals rest
    options.long? name attached
  | '-' :: c :: rest => options.short? (c :: rest)
  | _ => some ({ options with inputs := options.inputs ++ [argument] }, none)

/-- Read arguments one after the other. -/
def readAll? (options : Options) : List String → Option Options
  | [] => some options
  | "--" :: rest => some { options with inputs := options.inputs ++ rest }
  | argument :: rest =>
    match options.step? argument, rest with
    | some (options, none), rest => options.readAll? rest
    | some (options, some valued), value :: rest =>
      if looksLikeOption value then none
      else
        match options.give? value valued with
        | some options => options.readAll? rest
        | none => none
    | _, _ => none

/-- The file compiled when none is named. -/
def defaultInput : String := "main.o"

/-- The options that arguments spell, if they make sense. -/
def ofArguments? (arguments : List String) : Option Options := do
  let options ← ({} : Options).readAll? arguments
  return if options.inputs.isEmpty then { options with inputs := [defaultInput] } else options

end Options

end ClassLang.CommandLine
