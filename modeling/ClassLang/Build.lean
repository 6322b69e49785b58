import ClassLang.Analysis
import ClassLang.Grammar
import ClassLang.Lowering
import ClassLang.Simplify

/-! # Building

From text to code: a program is read, analysed, simplified if that is wanted, and lowered. A fault
or a diagnostic ends the build, and the stages reached so far are kept. -/

namespace ClassLang

/-- A stage that a build has reached. -/
inductive Stage where
  /-- The program was read. -/
  | parsed (program : Program)
  /-- The program was analysed. -/
  | analyzed (analysis : Analysis)
  /-- The program was simplified. -/
  | optimized (program : Program)
  /-- The program is about to be lowered. -/
  | compiling (program : Program)

/-- How a build without a fault ends. -/
inductive Outcome where
  /-- The analysis found nothing, and the program was lowered. -/
  | compiled (analysis : Analysis) (artifact : Artifact)
  /-- The analysis found something. -/
  | rejected (analysis : Analysis)

/-- A build: the stages reached in order, and how it ends. -/
structure Build where
  /-- The stages reached. -/
  stages : List Stage
  /-- The outcome, or the fault that ended the build. -/
  outcome : Except Fault Outcome

/-- Lower a program whose analysis found nothing. -/
def Program.finish (program : Program) (analysis : Analysis) : Except Fault Outcome := do
  return .compiled analysis (← program.lower)

/-- Build a program that was read. -/
def Program.build (optimize : Bool) (program : Program) : Build :=
  let analysis := program.analyze
  if !analysis.isClean then
    ⟨[.parsed program, .analyzed analysis], .ok (.rejected analysis)⟩
  else if optimize then
    let simplified := program.simplify
    ⟨[.parsed program, .analyzed analysis, .optimized simplified, .compiling simplified],
      simplified.finish analysis⟩
  else
    ⟨[.parsed program, .analyzed analysis, .compiling program], program.finish analysis⟩

/-- Build the program that a text spells. -/
def Build.ofText (optimize : Bool) (text : String) : Build :=
  match Program.ofText text with
  | .ok program => program.build optimize
  | .error fault => ⟨[], .error fault⟩

end ClassLang
