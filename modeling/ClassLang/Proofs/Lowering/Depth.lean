import ClassLang.Proofs.Lowering.Assembly
import ClassLang.Proofs.Lowering.Stmt
import ClassLang.Proofs.Machine.Paths

/-! # Depths of the stack in code

The code of an expression puts one value on the stack, unless it writes a value out: then it puts
nothing, and what needs the value does not find it. So where values are written out by whole
statements only, the code of statements starts and ends with an empty stack, and all code of a program
keeps its stack in order. -/

namespace ClassLang

open Stmt Instruction List

variable {code first second : List Instruction} {expr : Expr} {frame : Frame}

/-! ## Expressions -/

section Operators

variable (least depth : Nat)

/-- Turning a value into a double under a condition keeps the depth. -/
theorem leads_widenIf (condition : Prop) [Decidable condition] :
    Leads least (depth + 1) (if condition then [.widen] else []) (depth + 1) := by
  split
  · exact .single (Nat.le_add_left 1 depth)
  · exact .nil

/-- Two operands put two values on the stack, also where one of them becomes a double. -/
theorem leads_operands (one : Leads least depth first (depth + 1))
    (two : Leads least (depth + 1) second (depth + 2)) (arithmetic : Bool)
    (kind kind' : Option Scalar) :
    Leads least depth (first ++ widenFirst arithmetic kind kind' ++ second ++
      widenSecond arithmetic kind kind') (depth + 2) :=
  ((one.append (leads_widenIf least depth _)).append two).append (leads_widenIf least (depth + 1) _)

/-- Conversions keep the depth. -/
theorem leads_conversion (type : BuiltinType) (kind : Option Scalar) :
    Leads least (depth + 1) (conversion type kind) (depth + 1) := by
  unfold conversion
  split
  · exact .single (Nat.le_add_left 1 depth)
  · exact .single (Nat.le_add_left 1 depth)
  · exact .nil

theorem leads_negation : Leads least (depth + 1) negation (depth + 1) :=
  .cons (Nat.zero_le _) (.single (Nat.le_add_left 2 depth))

theorem BinaryOp.leads_code (op : BinaryOp) : Leads least (depth + 2) op.code (depth + 1) := by
  cases op with
  | add | sub | mul | div | gt | lt | eq => exact .single (Nat.le_add_left 2 depth)
  | ge | le | ne => exact .cons (Nat.le_add_left 2 depth) (leads_negation least depth)

/-- The code of an operation puts one value in the place of its operands. -/
theorem Operation.leads_code (operation : Operation) :
    Leads least (depth + 1 + operation.arity) operation.code (depth + 1) := by
  cases operation with
  | plus | minus | mult | div | rem | equal | greater | less | and | or | xor =>
    exact .single (Nat.le_add_left 2 depth)
  | greaterEqual | lessEqual => exact .cons (Nat.le_add_left 2 depth) (leads_negation least depth)
  | not => exact leads_negation least depth
  | toInteger | toReal => exact .single (Nat.le_add_left 1 depth)
  | toBoolean => exact (leads_negation least depth).append (leads_negation least depth)

end Operators

namespace Expr

/-- The code of an expression that writes nothing out puts one value on the stack. -/
theorem Emits.leads (emits : Emits frame expr code) (quiet : expr.writeFree = true)
    (least depth : Nat) : Leads least depth code (depth + 1) := by
  induction emits generalizing depth with
  | literal | self | slot => exact .single (Nat.zero_le _)
  | field | member => exact .cons (Nat.zero_le _) (.single (Nat.le_add_left 1 depth))
  | @binary op left right _ _ _ _ _ first second =>
    rw [writeFree, Bool.and_eq_true] at quiet
    have operands := leads_operands least depth (first quiet.1 depth) (second quiet.2 (depth + 1))
    exact (operands _ _ _).append (op.leads_code least depth)
  | write => simp [writeFree, isWrite] at quiet
  | @convert _ _ argument _ _ _ _ notWrite _ _ operand =>
    have quiet' : argument.writeFree = true := by
      simpa [writeFree, writeFreeList, isWrite, notWrite] using quiet
    exact (operand quiet' depth).append (leads_conversion least depth _ _)
  | @unary _ operation receiver _ _ _ found _ operand =>
    have quiet' : receiver.writeFree = true := by
      simpa [writeFree, writeFreeList, isWrite] using quiet
    have arity := (operationFor_eq_some found).2
    have result := operation.leads_code least depth
    rw [arity] at result
    exact (operand quiet' depth).append result
  | @pair _ operation receiver argument _ _ _ _ found _ _ first second =>
    have quiet' : receiver.writeFree = true ∧ argument.writeFree = true := by
      simpa [writeFree, writeFreeList, isWrite] using quiet
    have arity := (operationFor_eq_some found).2
    have result := operation.leads_code least depth
    rw [arity] at result
    have operands := leads_operands least depth (first quiet'.1 depth) (second quiet'.2 (depth + 1))
    exact (operands _ _ _).append result

/-- The code of an expression that writes nothing out puts one value on the stack. -/
theorem leads_lower (lowered : expr.lower frame = .ok code) (quiet : expr.writeFree = true)
    (least depth : Nat) : Leads least depth code (depth + 1) :=
  (emits_lower lowered).leads quiet least depth

end Expr

/-! ## Values that are missing -/

/-- Code puts one value in the place of a number of values, and takes all there are if they are
fewer. -/
structure Replaces (count : Nat) (code : List Instruction) : Prop where
  /-- The stack does not become deeper than it should. -/
  le : ∀ {depth bound : Nat}, depth ≤ bound + count → depthBehind code depth ≤ bound + 1
  /-- The values are there if the code leads on. -/
  eq : ∀ {least depth final : Nat}, Leads least depth code final → final + count = depth + 1

section Operators

/-- Code leads on if its first instruction may stand at the depth and the rest leads on. -/
theorem leads_cons_iff {least depth final : Nat} {instruction : Instruction} :
    Leads least depth (instruction :: code) final ↔
      instruction.Fits least depth ∧ Leads least (instruction.depthAfter depth) code final := by
  constructor
  · rintro ⟨⟩
    exact ⟨by assumption, by assumption⟩
  · exact fun leads => .cons leads.1 leads.2

/-- No code leads to where it started. -/
theorem leads_nil_iff {least depth final : Nat} : Leads least depth [] final ↔ depth = final := by
  constructor
  · rintro ⟨⟩
    rfl
  · rintro rfl
    exact .nil

theorem replaces_nil : Replaces 1 [] where
  le bounded := bounded
  eq leads := by rw [leads_nil_iff.mp leads]

/-- An instruction that leaves one value puts it in the place of those it takes. -/
theorem replaces_single {instruction : Instruction} {count : Nat} (takes : instruction.pops = count)
    (leaves : instruction.pushes = 1) : Replaces count [instruction] := by
  -- labels, jumps and returns leave nothing, so the instruction goes on and needs what it takes
  have goesOn : instruction.goesOn = true := by
    cases instruction <;> first | rfl | cases leaves
  have after (depth : Nat) : instruction.depthAfter depth = depth - count + 1 := by
    rw [depthAfter, if_pos goesOn, leaves, takes]
  constructor
  · intro depth bound bounded
    rw [depthBehind_cons, depthBehind_nil, after]
    omega
  · intro least depth final leads
    obtain ⟨fits, leads⟩ := leads_cons_iff.mp leads
    have needs : count ≤ depth := by
      subst takes
      cases instruction <;> first | exact fits | cases leaves
    rw [← leads_nil_iff.mp leads, after]
    omega

/-- Code in a row: the value that the first part leaves is among those that the second one takes. -/
theorem Replaces.append {count more : Nat} (one : Replaces count first)
    (two : Replaces (more + 1) second) : Replaces (count + more) (first ++ second) where
  le {depth bound} bounded := by
    rw [depthBehind_append]
    have behind : depthBehind first depth ≤ bound + more + 1 := one.le (by omega)
    exact two.le behind
  eq leads := by
    obtain ⟨leads, leads'⟩ := leads.of_append
    have taken := one.eq leads
    have taken' := two.eq leads'
    omega

theorem replaces_negation : Replaces 1 negation := by
  have zero : Replaces 0 [.const (.int 0)] := replaces_single rfl rfl
  have compared : Replaces 2 [.eq] := replaces_single rfl rfl
  exact zero.append compared

theorem replaces_negated {instruction : Instruction} {count : Nat} (takes : instruction.pops = count)
    (leaves : instruction.pushes = 1) : Replaces count (instruction :: negation) :=
  (replaces_single takes leaves).append replaces_negation

/-- Turning a value into a double under a condition puts a value in the place of a value. -/
theorem replaces_widenIf (condition : Prop) [Decidable condition] :
    Replaces 1 (if condition then [.widen] else []) := by
  split
  · exact replaces_single rfl rfl
  · exact replaces_nil

/-- Conversions put a value in the place of a value. -/
theorem replaces_conversion (type : BuiltinType) (kind : Option Scalar) :
    Replaces 1 (conversion type kind) := by
  unfold conversion
  split
  · exact replaces_single rfl rfl
  · exact replaces_single rfl rfl
  · exact replaces_nil

theorem BinaryOp.replaces_code (op : BinaryOp) : Replaces 2 op.code := by
  cases op with
  | add | sub | mul | div | gt | lt | eq => exact replaces_single rfl rfl
  | ge | le | ne => exact replaces_negated rfl rfl

/-- The code of an operation puts one value in the place of its operands. -/
theorem Operation.replaces_code (operation : Operation) :
    Replaces (operation.arity + 1) operation.code := by
  cases operation with
  | plus | minus | mult | div | rem | equal | greater | less | and | or | xor | toInteger | toReal =>
    exact replaces_single rfl rfl
  | greaterEqual | lessEqual => exact replaces_negated rfl rfl
  | not => exact replaces_negation
  | toBoolean => exact replaces_negation.append replaces_negation

variable (one : ∀ depth, depthBehind first depth ≤ depth + 1)
  (two : ∀ depth, depthBehind second depth ≤ depth + 1)

include one two

/-- Two operands put at most two values on the stack. -/
theorem depthBehind_operands_le {depth : Nat} (arithmetic : Bool) (kind kind' : Option Scalar) :
    depthBehind (first ++ widenFirst arithmetic kind kind' ++ second ++
      widenSecond arithmetic kind kind') depth ≤ depth + 2 := by
  simp only [depthBehind_append]
  refine Replaces.le (replaces_widenIf _) (?_ : _ ≤ depth + 1 + 1)
  refine Nat.le_trans (two _) (Nat.succ_le_succ ?_)
  exact (replaces_widenIf _).le (one depth)

/-- Operands that put two values on the stack put one value on the stack each. -/
theorem leads_of_operands {least depth final : Nat} {arithmetic : Bool} {kind kind' : Option Scalar}
    (leads : Leads least depth (first ++ widenFirst arithmetic kind kind' ++ second ++
      widenSecond arithmetic kind kind') final) (full : depth + 2 ≤ final) :
    Leads least depth first (depth + 1) ∧ Leads least (depth + 1) second (depth + 2) := by
  obtain ⟨leads, after⟩ := leads.of_append
  have kept := (replaces_widenIf _).eq after
  obtain ⟨leads, latter⟩ := leads.of_append
  obtain ⟨former, between⟩ := leads.of_append
  have kept' := (replaces_widenIf _).eq between
  have most := one depth
  have most' := two (depthBehind (first ++ widenFirst arithmetic kind kind') depth)
  have total := latter.depthBehind_eq
  have here : depthBehind first depth = depth + 1 := by omega
  have there : depthBehind (first ++ widenFirst arithmetic kind kind') depth = depth + 1 := by omega
  rw [there] at latter total most'
  rw [here] at former
  refine ⟨former, ?_⟩
  have last : depthBehind second (depth + 1) = depth + 2 := by omega
  rwa [← total, last] at latter

end Operators

namespace Expr

/-- The code of an expression puts at most one value on the stack. -/
theorem Emits.depthBehind_le (emits : Emits frame expr code) (depth : Nat) :
    depthBehind code depth ≤ depth + 1 := by
  induction emits generalizing depth with
  | literal | self | slot | field | member => exact Nat.le_refl _
  | @binary op _ _ _ _ _ _ _ first second =>
    rw [depthBehind_append]
    exact op.replaces_code.le (depthBehind_operands_le first second _ _ _)
  | write _ operand =>
    rw [depthBehind_append]
    exact Nat.le_trans (Nat.sub_le _ 1) (operand depth)
  | convert _ _ _ operand =>
    rw [depthBehind_append]
    exact (replaces_conversion _ _).le (operand depth)
  | @unary _ operation _ _ _ _ found _ operand =>
    rw [depthBehind_append]
    refine operation.replaces_code.le ?_
    rw [(operationFor_eq_some found).2]
    exact operand depth
  | @pair _ operation _ _ _ _ _ _ found _ _ first second =>
    rw [depthBehind_append]
    refine operation.replaces_code.le ?_
    rw [(operationFor_eq_some found).2]
    exact depthBehind_operands_le first second _ _ _

/-- An expression whose code puts a value on the stack writes nothing out. -/
theorem Emits.writeFree_of_leads (emits : Emits frame expr code) {least depth final : Nat}
    (leads : Leads least depth code final) (full : depth + 1 ≤ final) : expr.writeFree = true := by
  induction emits generalizing depth final with
  | @literal expr _ known =>
    cases expr with
    | int | real | bool => rfl
    | _ => cases known
  | self | slot | field | member => rfl
  | @binary op left right _ _ _ one two first second =>
    obtain ⟨operands, result⟩ := leads.of_append
    have count := op.replaces_code.eq result
    obtain ⟨former, latter⟩ := leads_of_operands one.depthBehind_le two.depthBehind_le operands
      (by omega)
    rw [writeFree, first former (Nat.le_refl _), second latter (Nat.le_refl _)]
    rfl
  | @write _ _ _ _ code operand =>
    -- the call leaves one value less than there should be
    have most := operand.depthBehind_le depth
    have total := leads.depthBehind_eq
    rw [depthBehind_append] at total
    replace total : depthBehind code depth - 1 = final := total
    omega
  | @convert _ _ argument _ _ _ _ notWrite _ _ operand =>
    obtain ⟨former, latter⟩ := leads.of_append
    have count := (replaces_conversion _ _).eq latter
    have quiet := operand former (by omega)
    simp [writeFree, writeFreeList, isWrite, notWrite, quiet]
  | @unary _ operation receiver _ _ _ found _ operand =>
    obtain ⟨former, latter⟩ := leads.of_append
    have count := operation.replaces_code.eq latter
    rw [(operationFor_eq_some found).2] at count
    have quiet := operand former (by omega)
    simp [writeFree, writeFreeList, isWrite, quiet]
  | @pair _ operation receiver argument _ _ _ _ found one two first second =>
    obtain ⟨operands, result⟩ := leads.of_append
    have count := operation.replaces_code.eq result
    rw [(operationFor_eq_some found).2] at count
    obtain ⟨former, latter⟩ := leads_of_operands one.depthBehind_le two.depthBehind_le operands
      (by omega)
    have quiet := first former (Nat.le_refl _)
    have quiet' := second latter (Nat.le_refl _)
    simp [writeFree, writeFreeList, isWrite, quiet, quiet']

end Expr

/-! ## Statements without jumps -/

/-- Straight code leaves an empty stack empty, and finds the values that it needs exactly if
something holds. -/
structure Settles (code : List Instruction) (quiet : Prop) : Prop where
  straight : code.all isStraight = true
  empties : depthBehind code 0 = 0
  /-- The code finds the values that it needs. -/
  leads : quiet → Leads 1 0 code 0
  /-- Only then does it. -/
  quiet : ∀ {final : Nat}, Leads 1 0 code final → quiet

section Settles

variable {frame : Frame} {code : List Instruction}

/-- Code in a row. -/
theorem Settles.append {quiet quiet' : Prop} (one : Settles first quiet)
    (two : Settles second quiet') :
    Settles (first ++ second) (quiet ∧ quiet') where
  straight := by rw [all_append, one.straight, two.straight, Bool.and_self]
  empties := by rw [depthBehind_append, one.empties, two.empties]
  leads both := (one.leads both.1).append (two.leads both.2)
  quiet leads := by
    obtain ⟨former, latter⟩ := leads.of_append
    rw [one.empties] at latter
    exact ⟨one.quiet former, two.quiet latter⟩

/-- An expression whose value the next instruction takes. -/
theorem Expr.Emits.settles (emits : Expr.Emits frame expr code) {last : Instruction}
    (straight : last.isStraight = true) (takes : ∀ depth, last.Fits 1 depth ↔ 1 ≤ depth)
    (lowers : ∀ depth, last.depthAfter depth = depth - 1) :
    Settles (code ++ [last]) (expr.writeFree = true) := by
  have most := emits.depthBehind_le 0
  refine ⟨?_, ?_, fun quiet => ?_, fun {final} leads => ?_⟩
  · rw [all_append, emits.straight, all_cons, straight]
    rfl
  · rw [depthBehind_append, depthBehind_cons, depthBehind_nil, lowers]
    omega
  · have single : Leads 1 1 [last] (last.depthAfter 1) := .single ((takes 1).mpr (Nat.le_refl 1))
    rw [lowers] at single
    exact (emits.leads quiet 1 0).append single
  · obtain ⟨former, latter⟩ := leads.of_append
    exact emits.writeFree_of_leads former ((takes _).mp (leads_cons_iff.mp latter).1)

theorem settles_storeLocal (lowered : expr.lower frame = .ok code) (slot : Nat) :
    Settles (code ++ [Instruction.storeLocal slot]) (expr.writeFree = true) :=
  (Expr.emits_lower lowered).settles rfl (fun _ => Iff.rfl) fun _ => rfl

/-- An expression whose value is stored in a field of the current object. -/
theorem settles_storeField (lowered : expr.lower frame = .ok code) (owner name : String) :
    Settles (.loadThis :: code ++ [Instruction.storeField owner name]) (expr.writeFree = true) := by
  have emits := Expr.emits_lower lowered
  have most := emits.depthBehind_le 1
  refine ⟨?_, ?_, fun quiet => ?_, fun {final} leads => ?_⟩
  · rw [cons_append, all_cons, all_append, emits.straight]
    rfl
  · change depthBehind (code ++ [Instruction.storeField owner name]) 1 = 0
    rw [depthBehind_append]
    change depthBehind code 1 - 2 = 0
    omega
  · have stored : Leads 1 2 [.storeField owner name] 0 := .single (Nat.le_refl 2)
    exact .cons (Nat.zero_le _) ((Expr.leads_lower lowered quiet 1 1).append stored)
  · obtain ⟨former, latter⟩ := (leads_cons_iff.mp leads).2.of_append
    exact emits.writeFree_of_leads former (leads_cons_iff.mp latter).1

/-- An assignment. -/
theorem settles_assignCode {target value : Expr}
    (lowered : frame.assignCode target value = .ok code) :
    Settles code (value.writeFree = true) := by
  unfold Frame.assignCode at lowered
  split at lowered
  · obtain ⟨valueCode, evaluated, lowered⟩ := exists_ok_of_bind lowered
    split at lowered <;> cases lowered
    · exact settles_storeLocal evaluated _
    · exact settles_storeField evaluated _ _
  · cases lowered

/-- An expression that is evaluated for its effect. -/
theorem settles_evalCode {value : Expr} (lowered : value.lower frame = .ok code) :
    Settles (evalCode value code) (value.writesOnTop = true) := by
  unfold evalCode
  split
  · next writes =>
      obtain ⟨types, arguments, position, position', rfl⟩ := Expr.exists_of_isWrite writes
      cases Expr.emits_lower lowered with
      | literal known => cases known
      | convert notWrite => exact absurd rfl notWrite
      | @write argument _ _ _ code operand =>
        -- the call takes what its argument leaves
        have onTop : (Expr.call (.ident writeRoutine types position) [argument]
            position').writesOnTop = argument.writeFree := by
          simp [Expr.writesOnTop, Expr.writeFree, Expr.writeFreeList]
        rw [onTop]
        exact operand.settles rfl (fun _ => Iff.rfl) fun _ => rfl
  · next silent =>
      have onTop : value.writesOnTop = true ↔ value.writeFree = true :=
        ⟨fun onTop => (Expr.quiet_of_not_isWrite silent onTop).2, fun free => by
          cases value <;> simp_all [Expr.writesOnTop, Expr.writeFree]⟩
      rw [onTop]
      exact (Expr.emits_lower lowered).settles rfl (fun _ => Iff.rfl) fun _ => rfl

/-- The initial values of fields. -/
theorem settles_fieldsCode {fields : List Field} (lowered : frame.fieldsCode fields = .ok code) :
    Settles code (∀ field ∈ fields, field.init.writeFree = true) := by
  induction fields generalizing code with
  | nil =>
    cases lowered
    exact ⟨rfl, rfl, fun _ => .nil, fun _ => nofun⟩
  | cons field rest ih =>
    obtain ⟨init, initial, lowered⟩ := exists_ok_of_bind lowered
    obtain ⟨restCode, later, result⟩ := exists_ok_of_bind lowered
    cases result
    simp only [forall_mem_cons]
    exact (settles_storeField initial _ _).append (ih later)

end Settles

/-! ## Statements -/

section Statements

variable {least : Nat}

/-- A test takes its value and leaves an empty stack on both ways. -/
theorem leads_jumpIfFalse (label : Label) : Leads least 1 [.jumpIfFalse label] 0 :=
  .single rfl

/-- The code of a branch, from the code of its parts. -/
theorem leads_branchCode {test body alternative : List Instruction} {first second : Label}
    (tested : Leads least 0 test 1) (taken : Leads least 0 body 0)
    (otherwise : Leads least 0 alternative 0) :
    Leads least 0 (branchCode first second test body alternative) 0 := by
  have entered : Leads least 0 (test ++ [Instruction.jumpIfFalse first] ++ body) 0 :=
    (tested.append (leads_jumpIfFalse first)).append taken
  have left : Leads least 0 [.jump second, .label first] 0 := .cons rfl (.single rfl)
  exact ((entered.append left).append otherwise).append (.single rfl)

/-- The code of a loop, from the code of its parts. -/
theorem leads_loopCode {test body : List Instruction} {first second : Label}
    (tested : Leads least 0 test 1) (repeated : Leads least 0 body 0) :
    Leads least 0 (loopCode first second test body) 0 := by
  have started : Leads least 0 [.label first] 0 := .single rfl
  have entered : Leads least 0
      ([Instruction.label first] ++ test ++ [Instruction.jumpIfFalse second] ++ body) 0 :=
    ((started.append tested).append (leads_jumpIfFalse second)).append repeated
  exact entered.append (.cons rfl (.single rfl))

/-- The code of statements starts and ends with an empty stack, and returns with one value. -/
theorem Stmt.Emits.leads {exit? : Option Label} {emitter final : Emitter} {block : List Stmt}
    (emits : Emits exit? emitter block code final) (onTop : blockWritesOnTop block = true) :
    Leads 1 0 code 0 := by
  induction emits with
  | nothing => exact .nil
  | sequence _ _ first second =>
    rw [blockWritesOnTop, Bool.and_eq_true] at onTop
    exact (first (by simp [blockWritesOnTop, onTop.1])).append (second onTop.2)
  | declare lowered =>
    rw [blockWritesOnTop, writesOnTop, Bool.and_eq_true] at onTop
    exact (settles_storeLocal lowered _).leads onTop.1
  | assign lowered =>
    simp only [blockWritesOnTop, writesOnTop, Bool.and_eq_true] at onTop
    exact (settles_assignCode lowered).leads onTop.1.2
  | branch lowered _ taken =>
    simp only [blockWritesOnTop, writesOnTop, Bool.and_eq_true] at onTop
    exact leads_branchCode (Expr.leads_lower lowered onTop.1.1 1 0) (taken onTop.1.2) .nil
  | alternative lowered _ _ taken otherwise =>
    simp only [blockWritesOnTop, writesOnTop, Bool.and_eq_true] at onTop
    exact leads_branchCode (Expr.leads_lower lowered onTop.1.1.1 1 0) (taken onTop.1.1.2)
      (otherwise onTop.1.2)
  | loop lowered _ repeated =>
    simp only [blockWritesOnTop, writesOnTop, Bool.and_eq_true] at onTop
    exact leads_loopCode (Expr.leads_lower lowered onTop.1.1 1 0) (repeated onTop.1.2)
  | ret lowered =>
    rw [blockWritesOnTop, writesOnTop, Bool.and_eq_true] at onTop
    -- nothing goes on behind a return, so the stack counts as empty there
    exact (Expr.leads_lower lowered onTop.1 1 0).append (.single ⟨Nat.le_refl 1, Nat.le_refl 1⟩)
  | leave => exact .single rfl
  | eval lowered =>
    rw [blockWritesOnTop, writesOnTop, Bool.and_eq_true] at onTop
    exact (settles_evalCode lowered).leads onTop.1

end Statements

/-! ## Methods -/

/-- Whether a class writes values out by whole expression statements only. -/
def ClassDecl.writesOnTop (decl : ClassDecl) : Bool :=
  decl.fields.all (fun field => field.init.writeFree) && blockWritesOnTop decl.init &&
    decl.methods.all (fun method => blockWritesOnTop method.body)

/-- Whether a program writes values out by whole expression statements only. -/
def Program.writesOnTop (program : Program) : Bool :=
  program.classes.all ClassDecl.writesOnTop

namespace Program.Assembles

variable {program : Program} {low high : Nat} {method : MethodCode} {parts : MethodParts}

variable (assembles : program.Assembles low method parts high)

include assembles

/-- The code for fields and the code of statements start and end with an empty stack. -/
theorem leads_parts (onTop : program.writesOnTop = true) :
    Leads 1 0 parts.fields 0 ∧ Leads 1 0 parts.body 0 := by
  have classes := all_eq_true.mp onTop
  cases assembles with
  | init declared initial lowered =>
    have onTop := classes _ declared
    simp only [ClassDecl.writesOnTop, Bool.and_eq_true, all_eq_true] at onTop
    exact ⟨(settles_fieldsCode initial).leads onTop.1.1,
      (emits_lowerBlock _ lowered).leads onTop.1.2⟩
  | method declared owned lowered _ =>
    have onTop := classes _ declared
    simp only [ClassDecl.writesOnTop, Bool.and_eq_true, all_eq_true] at onTop
    exact ⟨.nil, (emits_lowerBlock _ lowered).leads (onTop.2 _ owned)⟩
  | entry => exact ⟨.nil, .nil⟩

/-- The code that closes a method starts with an empty stack. -/
theorem leads_closing : Leads 0 0 parts.closing 0 := by
  rcases assembles.closing_cases with closing | closing | closing <;> rw [closing]
  · exact .nil
  · exact .single ⟨Nat.le_refl 0, Nat.zero_le 1⟩
  · exact .cons (Nat.zero_le _) (.single ⟨Nat.zero_le 1, Nat.le_refl 1⟩)

end Program.Assembles

/-- In every method of an artifact, depths of the stack can be given to all indices that fit all ways
through the code, if values are written out by whole statements only. A return that a statement asks
for finds exactly one value. -/
theorem Program.stackDepths_lower {program : Program} {artifact : Artifact}
    (lowered : program.lower = .ok artifact) (onTop : program.writesOnTop = true) :
    ∀ decl ∈ artifact.classes, ∀ method ∈ decl.methods, ∃ low parts high depth,
      program.Assembles low method parts high ∧
      method.code = parts.fields ++ parts.body ++ parts.closing ∧
      StackDepths method.code depth ∧
      ∀ index, parts.body[index]? = some .ret → depth (parts.fields.length + index) = 1 := by
  intro decl declared method owned
  obtain ⟨low, parts, high, assembles⟩ := Program.exists_parts_of_lower lowered declared owned
  obtain ⟨fields, body⟩ := assembles.leads_parts onTop
  have whole : Leads 0 0 parts.code 0 :=
    ((fields.append body).mono (Nat.zero_le 1)).append assembles.leads_closing
  refine ⟨low, parts, high, depthAt parts.code 0, assembles, assembles.code_eq, ?_, ?_⟩
  · rw [assembles.code_eq]
    exact whole.stackDepths
  · intro index returns
    -- the statements stand behind the code for fields, which leaves nothing on the stack
    have inside : index < parts.body.length := (List.getElem?_eq_some_iff.mp returns).1
    have here := body.fits_depthAt returns
    rw [MethodParts.code, List.append_assoc, fields.depthAt_append,
      Leads.depthAt_append_left _ _ _ (Nat.le_of_lt inside)]
    exact Nat.le_antisymm here.2 here.1

/-- A class with a field and a method that leaves a loop, writes a value out in a branch and returns
from the alternative, with a statement behind the return. -/
def countingDown : Program :=
  let here : Position := ⟨1, 1⟩
  let name (text : String) : Expr := .ident text [] here
  let test : Expr := .binary .gt (name "count") (.int "0" here) here
  let written : Stmt := .eval (.call (name "write") [name "count"] here) here
  let stop : Stmt := .branch test [written] (some [.ret (name "start") here, written]) here
  let main : Method := ⟨"main", [⟨"count", ⟨"Integer", [], here⟩, here⟩],
    some ⟨"Integer", [], here⟩, [.loop test [stop, .leave here] here, .ret (.int "0" here) here],
    here⟩
  ⟨[⟨"A", none, [], [.field ⟨"start", .int "1" here, here⟩, .method main], here⟩]⟩

/-- The methods of this class keep their stacks in order. -/
theorem Program.stackDepths_countingDown : ∃ artifact, countingDown.lower = .ok artifact ∧
    countingDown.writesOnTop = true ∧
    ∀ decl ∈ artifact.classes, ∀ method ∈ decl.methods, ∃ low parts high depth,
      countingDown.Assembles low method parts high ∧
      method.code = parts.fields ++ parts.body ++ parts.closing ∧
      StackDepths method.code depth ∧
      ∀ index, parts.body[index]? = some .ret → depth (parts.fields.length + index) = 1 := by
  have lowered : ∃ artifact, countingDown.lower = .ok artifact := ⟨_, rfl⟩
  obtain ⟨artifact, lowered⟩ := lowered
  have onTop : countingDown.writesOnTop = true := by decide
  exact ⟨artifact, lowered, onTop, Program.stackDepths_lower lowered onTop⟩

end ClassLang
