import ClassLang.Proofs.Lowering.Scoping
import ClassLang.Proofs.Lowering.Simplified
import ClassLang.Proofs.Printing.Simplified

/-! # Names in code

Every name in the code of a program is a word, so any other character keeps names apart. The names
are those that the program declares, which the scanner found, and a few that code adds: its labels,
its routines and the class of a program without an entry method. -/

namespace ClassLang

open Lexeme List Stmt Program

variable {program : Program} {name : String}

/-! ## Names that code mentions -/

/-- The names that an instruction mentions. -/
def Instruction.names : Instruction → List String
  | .loadField owner field | .storeField owner field => [owner, field]
  | .label place => [place.name]
  | .jump target | .jumpIfFalse target => [target.name]
  | .call routine _ => [routine]
  | _ => []

/-- The names that the code of a method mentions. -/
def MethodCode.names (method : MethodCode) : List String :=
  method.name :: (method.params ++ (method.slots ++ method.code.flatMap Instruction.names))

/-- The names that the code of a class mentions. -/
def ClassCode.names (decl : ClassCode) : List String :=
  decl.name :: (decl.base.toList ++ (decl.fields ++ decl.methods.flatMap MethodCode.names))

/-- The names that the code of a program mentions. -/
def Artifact.names (artifact : Artifact) : List String := artifact.classes.flatMap ClassCode.names

/-! ## Names that a program declares -/

/-- The names that a method declares: its own, its parameters and its variables. -/
def Method.declaredNames (method : Method) : List String :=
  method.name :: (method.params.map Param.name ++ blockVariables method.body)

/-- The names that a class declares, with the name of the class it extends. -/
def ClassDecl.declaredNames (decl : ClassDecl) : List String :=
  decl.name :: (decl.base.toList ++ (decl.fields.map Field.name ++
    (blockVariables decl.init ++ decl.methods.flatMap Method.declaredNames)))

/-- The names that a program declares. -/
def Program.declaredNames (program : Program) : List String :=
  program.classes.flatMap ClassDecl.declaredNames

/-! ## Declared names are words -/

mutual

/-- The variables of a statement are names in it. -/
theorem Stmt.mem_spellings_of_variables {name : String} {stmt : Stmt}
    (mem : name ∈ stmt.variables) : (Kind.identifier, name) ∈ stmt.spellings := by
  cases stmt with
  | declare other init =>
    rw [mem_singleton.mp mem]
    exact mem_cons_self
  | branch test body alternative =>
    cases alternative with
    | none =>
      rw [spellings]
      exact mem_append_right _ (mem_blockSpellings_of_variables mem)
    | some alternative =>
      rw [spellings]
      refine mem_append_right _ ?_
      rcases mem_append.mp mem with inside | inside
      · exact mem_append_left _ (mem_blockSpellings_of_variables inside)
      · exact mem_append_right _ (mem_blockSpellings_of_variables inside)
  | loop test body =>
    exact mem_append_right _ (mem_blockSpellings_of_variables mem)
  | _ => cases mem

theorem Stmt.mem_blockSpellings_of_variables {name : String} {block : List Stmt}
    (mem : name ∈ blockVariables block) : (Kind.identifier, name) ∈ blockSpellings block := by
  cases block with
  | nil => cases mem
  | cons stmt rest =>
    rcases mem_append.mp mem with here | later
    · exact mem_append_left _ (mem_spellings_of_variables here)
    · exact mem_append_right _ (mem_blockSpellings_of_variables later)

end

/-- The names that a method declares are names in it. -/
theorem Method.mem_spellings_of_declaredNames {method : Method} (mem : name ∈ method.declaredNames) :
    (Kind.identifier, name) ∈ method.spellings := by
  rcases mem_cons.mp mem with rfl | mem
  · exact mem_cons_self
  refine mem_cons_of_mem _ ?_
  rcases mem_append.mp mem with mem | mem
  · obtain ⟨param, inside, rfl⟩ := mem_map.mp mem
    exact mem_append_left _ (mem_flatMap.mpr ⟨param, inside, mem_cons_self⟩)
  · exact mem_append_right _
      (mem_append_right _ (mem_blockSpellings_of_variables mem))

/-- The names that a class declares are names in it. -/
theorem ClassDecl.mem_spellings_of_declaredNames {decl : ClassDecl}
    (mem : name ∈ decl.declaredNames) : (Kind.identifier, name) ∈ decl.spellings := by
  rcases mem_cons.mp mem with rfl | mem
  · exact mem_cons_self
  rcases mem_append.mp mem with mem | mem
  · exact mem_cons_of_mem _ (mem_append_left _ (mem_map_of_mem mem))
  rcases mem_append.mp mem with mem | mem
  · obtain ⟨field, inside, rfl⟩ := mem_map.mp mem
    exact ClassDecl.spellings_member_subset (ClassDecl.mem_fields.mp inside) mem_cons_self
  rcases mem_append.mp mem with mem | mem
  · exact mem_cons_of_mem _ (mem_append_right _ (mem_append_left _
      (mem_blockSpellings_of_variables mem)))
  · obtain ⟨method, inside, named⟩ := mem_flatMap.mp mem
    exact ClassDecl.spellings_member_subset (ClassDecl.mem_methods.mp inside)
      (Method.mem_spellings_of_declaredNames named)

/-- The names that a program declares are words if all names in it are. -/
theorem Program.isWord_declaredNames
    (words : ∀ spelling ∈ program.spellings, spelling.1 = .identifier → IsWord spelling.2) :
    ∀ name ∈ program.declaredNames, IsWord name := by
  intro name mem
  obtain ⟨decl, inside, named⟩ := mem_flatMap.mp mem
  have spelled : (Kind.identifier, name) ∈ program.spellings :=
    mem_flatMap.mpr ⟨decl, inside, ClassDecl.mem_spellings_of_declaredNames named⟩
  exact words _ spelled rfl

theorem Program.isWord_of_ofText {text : String} (read : ofText text = .ok program) :
    ∀ spelling ∈ program.spellings, spelling.1 = .identifier → IsWord spelling.2 := by
  rintro ⟨_, name⟩ spelled rfl
  exact (isFound_of_ofText read _ spelled).1

/-- The names in a simplified program are words if those in the program are. -/
theorem Program.isWord_simplify
    (words : ∀ spelling ∈ program.spellings, spelling.1 = .identifier → IsWord spelling.2) :
    ∀ spelling ∈ program.simplify.spellings, spelling.1 = .identifier → IsWord spelling.2 := by
  refine forall_spellings_simplify ?_ words
  -- what is computed is no name
  rintro spelling ⟨op, left, right, result, position, -, inside⟩ named
  cases result with
  | bool value => cases inside
  | int value | real value =>
    rw [mem_singleton.mp inside] at named
    cases named

/-! ## Code mentions words -/

/-- A text is a word if its first character starts one and all belong to it. -/
theorem Lexeme.IsWord.of_all {text : String} (start : text.toList.head?.any isWordStart = true)
    (parts : text.toList.all isWordPart = true) : IsWord text := by
  cases spelled : text.toList with
  | nil =>
    rw [spelled] at start
    cases start
  | cons c rest =>
    rw [spelled] at start parts
    rw [all_cons, Bool.and_eq_true] at parts
    exact ⟨c, rest, spelled, start, all_eq_true.mp parts.2⟩

theorem isWordPart_of_isDigit {c : Char} (digit : c.isDigit = true) : isWordPart c = true := by
  have parts : ∀ code ∈ List.range' 48 10, isWordPart (Char.ofNat code) = true := by
    decide +kernel
  have part := parts c.toNat (toNat_mem_of_isDigit digit)
  rwa [Char.ofNat_toNat] at part

/-- The name of a label is a word. -/
theorem Label.isWord_numbered (number : Nat) : IsWord (Label.numbered number).name := by
  have digits : (toString number).toList = Nat.toDigits 10 number :=
    Decimal.toList_toString_ofNat number
  refine ⟨'L', List.replicate (4 - (toString number).length) '0' ++ (toString number).toList, ?_,
    by decide, forall_mem_append.mpr ⟨?_, ?_⟩⟩
  · simp [Label.numbered]
  · intro c mem
    rw [(mem_replicate.mp mem).2]
    decide
  · intro c mem
    rw [digits] at mem
    exact isWordPart_of_isDigit (Decimal.isDigit_toDigits number c mem)

/-- Whether the fields that names may mean have words as names, and so have their classes. -/
def Frame.FieldsWorded (frame : Frame) : Prop :=
  ∀ name owner, frame.owner? name = some owner → IsWord owner ∧ IsWord name

/-- Whether all names that code mentions are words. -/
def Worded (code : List Instruction) : Prop := ∀ name ∈ code.flatMap Instruction.names, IsWord name

namespace Worded

variable {code : List Instruction}

theorem append_iff {first second : List Instruction} :
    Worded (first ++ second) ↔ Worded first ∧ Worded second := by
  unfold Worded
  rw [flatMap_append, forall_mem_append]

theorem of_nil (none : code.flatMap Instruction.names = []) : Worded code := by
  unfold Worded
  rw [none]
  nofun

theorem singleton_iff {instruction : Instruction} :
    Worded [instruction] ↔ ∀ name ∈ instruction.names, IsWord name := by
  unfold Worded
  rw [flatMap_singleton]

/-- Turning a value into a double under a condition mentions no names. -/
theorem widenIf (condition : Prop) [Decidable condition] :
    Worded (if condition then [.widen] else []) := by
  apply of_nil
  split <;> rfl

/-- The code of two operands, with conversions in between, and of what is done with them. -/
theorem operands {first second last : List Instruction} {arithmetic : Bool}
    {firstKind secondKind : Option Scalar} (left : Worded first) (right : Worded second)
    (op : Worded last) : Worded (first ++ widenFirst arithmetic firstKind secondKind ++ second ++
      widenSecond arithmetic firstKind secondKind ++ last) := by
  simp only [append_iff]
  exact ⟨⟨⟨⟨left, widenIf _⟩, right⟩, widenIf _⟩, op⟩

theorem binaryOp (op : BinaryOp) : Worded op.code := by
  apply of_nil
  cases op <;> rfl

theorem operation (operation : Operation) : Worded operation.code := by
  apply of_nil
  cases operation <;> rfl

end Worded

section Code

variable {frame : Frame} {code : List Instruction}

/-- The code of an expression mentions words. -/
theorem Expr.Emits.worded {expr : Expr} (emits : Expr.Emits frame expr code)
    (fields : frame.FieldsWorded) : Worded code := by
  induction emits with
  | literal | self | slot => exact .of_nil rfl
  | field _ owned | member owned =>
    obtain ⟨owner, name⟩ := fields _ _ owned
    exact forall_mem_cons.mpr ⟨owner, forall_mem_singleton.mpr name⟩
  | binary _ _ first second => exact .operands first second (.binaryOp _)
  | write _ operand =>
    have routine : IsWord writeRoutine := .of_all (by decide) (by decide)
    exact Worded.append_iff.mpr
      ⟨operand, Worded.singleton_iff.mpr (forall_mem_singleton.mpr routine)⟩
  | convert _ _ _ operand =>
    refine Worded.append_iff.mpr ⟨operand, .of_nil ?_⟩
    unfold conversion
    split <;> rfl
  | unary _ _ operand => exact Worded.append_iff.mpr ⟨operand, .operation _⟩
  | pair _ _ _ first second => exact .operands first second (.operation _)

theorem Expr.worded_lower {expr : Expr} (lowered : expr.lower frame = .ok code)
    (fields : frame.FieldsWorded) : Worded code :=
  (Expr.emits_lower lowered).worded fields

/-- The code of an assignment mentions words. -/
theorem Frame.worded_assignCode {target value : Expr}
    (lowered : frame.assignCode target value = .ok code) (fields : frame.FieldsWorded) :
    Worded code := by
  unfold assignCode at lowered
  split at lowered
  · next name _ _ =>
      obtain ⟨valueCode, evaluated, lowered⟩ := exists_ok_of_bind lowered
      have value := Expr.worded_lower evaluated fields
      split at lowered
      · cases lowered
        exact Worded.append_iff.mpr ⟨value, .of_nil rfl⟩
      · next owner stored =>
          cases lowered
          have owned : frame.owner? name = some owner := by
            unfold storage? at stored
            split at stored
            · cases stored
            · simpa using stored
          have names := fields _ _ owned
          refine Worded.append_iff.mpr ⟨value, Worded.singleton_iff.mpr ?_⟩
          exact forall_mem_cons.mpr ⟨names.1, forall_mem_singleton.mpr names.2⟩
      · cases lowered
  · cases lowered

/-- The code of a branch with numbered labels mentions words if its parts do. -/
theorem Worded.branchCode {alternativeNumber endNumber : Nat}
    {test body alternative : List Instruction} (tested : Worded test) (taken : Worded body)
    (otherwise : Worded alternative) :
    Worded (branchCode (.numbered alternativeNumber) (.numbered endNumber) test body
      alternative) := by
  have label (number : Nat) : ∀ name ∈ [(Label.numbered number).name], IsWord name :=
    forall_mem_singleton.mpr (Label.isWord_numbered number)
  unfold ClassLang.branchCode
  simp only [append_iff]
  refine ⟨⟨⟨⟨⟨tested, label _⟩, taken⟩, ?_⟩, otherwise⟩, label _⟩
  exact forall_mem_cons.mpr ⟨Label.isWord_numbered endNumber, label alternativeNumber⟩

/-- So does the code of a loop. -/
theorem Worded.loopCode {startNumber endNumber : Nat} {test body : List Instruction}
    (tested : Worded test) (repeated : Worded body) :
    Worded (loopCode (.numbered startNumber) (.numbered endNumber) test body) := by
  have label (number : Nat) : ∀ name ∈ [(Label.numbered number).name], IsWord name :=
    forall_mem_singleton.mpr (Label.isWord_numbered number)
  unfold ClassLang.loopCode
  simp only [append_iff]
  refine ⟨⟨⟨⟨label _, tested⟩, label _⟩, repeated⟩, ?_⟩
  exact forall_mem_cons.mpr ⟨Label.isWord_numbered startNumber, label endNumber⟩

variable {exit? : Option Label} {emitter final : Emitter} {block : List Stmt}

/-- Statements do not change what fields there are. -/
theorem Stmt.Emits.owner?_eq (emits : Stmt.Emits exit? emitter block code final) :
    final.frame.owner? = emitter.frame.owner? := by
  induction emits with
  | nothing | declare | assign | ret | leave | eval => rfl
  | sequence _ _ first second => rw [second, first]
  | branch _ _ taken | loop _ _ taken => exact taken
  | alternative _ _ _ taken otherwise => exact otherwise.trans taken

/-- The code of statements mentions words, if the label behind the loop around them is one. -/
theorem Stmt.Emits.worded (emits : Stmt.Emits exit? emitter block code final)
    (fields : emitter.frame.FieldsWorded) (exits : ∀ label ∈ exit?, IsWord label.name) :
    Worded code := by
  induction emits with
  | nothing => exact .of_nil rfl
  | sequence first _ here later =>
    refine Worded.append_iff.mpr ⟨here fields exits, later ?_ exits⟩
    unfold Frame.FieldsWorded
    rw [first.owner?_eq]
    exact fields
  | declare lowered =>
    exact Worded.append_iff.mpr ⟨Expr.worded_lower lowered fields, .of_nil rfl⟩
  | assign lowered => exact Frame.worded_assignCode lowered fields
  | branch lowered _ taken =>
    exact .branchCode (Expr.worded_lower lowered fields) (taken fields exits) (.of_nil rfl)
  | alternative lowered first _ taken otherwise =>
    refine .branchCode (Expr.worded_lower lowered fields) (taken fields exits) ?_
    refine otherwise ?_ exits
    unfold Frame.FieldsWorded
    rw [Emitter.owner?_enter, Emitter.owner?_exit, first.owner?_eq]
    exact fields
  | loop lowered _ repeated =>
    refine .loopCode (Expr.worded_lower lowered fields) (repeated fields ?_)
    rintro _ ⟨⟩
    exact Label.isWord_numbered _
  | ret lowered => exact Worded.append_iff.mpr ⟨Expr.worded_lower lowered fields, .of_nil rfl⟩
  | leave => exact Worded.singleton_iff.mpr (forall_mem_singleton.mpr (exits _ rfl))
  | eval lowered =>
    have value := Expr.worded_lower lowered fields
    unfold evalCode
    split
    · exact value
    · exact Worded.append_iff.mpr ⟨value, .of_nil rfl⟩

/-- The code that sets fields mentions words. -/
theorem Frame.worded_fieldsCode {fields : List Field} (lowered : frame.fieldsCode fields = .ok code)
    (worded : frame.FieldsWorded) (own : IsWord frame.decl.name)
    (names : ∀ field ∈ fields, IsWord field.name) : Worded code := by
  induction fields generalizing code with
  | nil =>
    cases lowered
    exact .of_nil rfl
  | cons field rest ih =>
    obtain ⟨init, initial, lowered⟩ := exists_ok_of_bind lowered
    obtain ⟨restCode, later, result⟩ := exists_ok_of_bind lowered
    cases result
    obtain ⟨here, others⟩ := forall_mem_cons.mp names
    have value := Expr.worded_lower initial worded
    refine Worded.append_iff.mpr ⟨Worded.append_iff.mpr ⟨value, ?_⟩, ih later others⟩
    exact Worded.singleton_iff.mpr (forall_mem_cons.mpr ⟨own, forall_mem_singleton.mpr here⟩)

end Code

/-! ## Classes and programs -/

section Programs

variable {program : Program} {decl : ClassDecl}

/-- The field that a name means has this name and is declared in a class of the program. -/
theorem Program.findField_spec {budget : Nat} {owner : ClassDecl} {field : Field}
    (inside : decl ∈ program.classes)
    (found : program.findField name budget decl = some (owner, field)) :
    owner ∈ program.classes ∧ field ∈ owner.fields ∧ field.name = name := by
  induction budget generalizing decl with
  | zero => cases found
  | succ budget ih =>
    rw [findField] at found
    split at found
    · next here =>
        cases found
        have named := find?_some here
        exact ⟨inside, mem_of_find?_eq_some here, of_decide_eq_true named⟩
    · split at found
      · next base known =>
          refine ih ?_ found
          obtain ⟨name, -, declared⟩ := Option.bind_eq_some_iff.mp known
          exact mem_of_find?_eq_some declared
      · cases found

/-- The fields of a program have words as names if the names that it declares are words. -/
theorem Program.fieldsWorded (words : ∀ name ∈ program.declaredNames, IsWord name)
    (inside : decl ∈ program.classes) (locals : Locals (Option Scalar)) :
    Frame.FieldsWorded ⟨program, decl, locals⟩ := by
  intro name owner owned
  obtain ⟨⟨declaring, field⟩, found, rfl⟩ := Option.map_eq_some_iff.mp owned
  obtain ⟨among, declared, rfl⟩ := findField_spec inside found
  have word {name : String} (named : name ∈ declaring.declaredNames) : IsWord name :=
    words name (mem_flatMap.mpr ⟨declaring, among, named⟩)
  refine ⟨word mem_cons_self, word (mem_cons_of_mem _ ?_)⟩
  exact mem_append_right _ (mem_append_left _ (mem_map_of_mem declared))

section Fields

variable (fields : ∀ locals, Frame.FieldsWorded ⟨program, decl, locals⟩)

include fields

/-- The code of statements of a method mentions words, and so do its slots. -/
theorem Stmt.isWord_lowerBlock {params : List Param} {low : Nat} {block : List Stmt}
    {code : List Instruction} {final : Emitter}
    (lowered : lowerBlock none (Emitter.ofParams program decl params low) block = .ok (code, final))
    (names : ∀ param ∈ params, IsWord param.name) (own : ∀ name ∈ blockVariables block, IsWord name) :
    (∀ name ∈ final.frame.locals.names, IsWord name) ∧ Worded code := by
  refine ⟨?_, (emits_lowerBlock block lowered).worded (fields _) nofun⟩
  rw [(scoped_lowerBlock lowered).1]
  exact forall_mem_append.mpr ⟨forall_mem_map.mpr names, own⟩

/-- The code of a method mentions words. -/
theorem Method.LowersTo.isWord_names {method : Method} {code : MethodCode}
    (lowers : method.LowersTo program decl code)
    (words : ∀ name ∈ method.declaredNames, IsWord name) : ∀ name ∈ code.names, IsWord name := by
  obtain ⟨low, body, final, lowered, rfl⟩ := lowers.exists_body
  obtain ⟨own, others⟩ := forall_mem_cons.mp words
  obtain ⟨params, inBody⟩ := forall_mem_append.mp others
  obtain ⟨slots, worded⟩ := isWord_lowerBlock fields lowered (forall_mem_map.mp params) inBody
  refine forall_mem_cons.mpr ⟨own, forall_mem_append.mpr ⟨params, ?_⟩⟩
  refine forall_mem_append.mpr ⟨slots, ?_⟩
  obtain ⟨closing, closed, rfl | rfl⟩ := closeCode_cases method.result body
  · rw [closed, append_nil]
    exact worded
  · rw [closed]
    exact Worded.append_iff.mpr ⟨worded, .of_nil rfl⟩

/-- The code that sets up a new object mentions words. -/
theorem ClassDecl.InitLowersTo.isWord_names {code : MethodCode}
    (lowers : decl.InitLowersTo program code)
    (words : ∀ name ∈ decl.declaredNames, IsWord name) : ∀ name ∈ code.names, IsWord name := by
  obtain ⟨low, fieldsCode, body, final, initial, lowered, rfl⟩ := lowers.exists_body
  obtain ⟨own, others⟩ := forall_mem_cons.mp words
  obtain ⟨-, others⟩ := forall_mem_append.mp others
  obtain ⟨names, others⟩ := forall_mem_append.mp others
  obtain ⟨inBody, -⟩ := forall_mem_append.mp others
  obtain ⟨slots, worded⟩ := isWord_lowerBlock fields lowered nofun inBody
  have setting := Frame.worded_fieldsCode initial (fields _) own (forall_mem_map.mp names)
  have init : IsWord initMethodName := .of_all (by decide) (by decide)
  refine forall_mem_cons.mpr ⟨init, forall_mem_append.mpr ⟨nofun, ?_⟩⟩
  refine forall_mem_append.mpr ⟨slots, ?_⟩
  exact Worded.append_iff.mpr ⟨Worded.append_iff.mpr ⟨setting, worded⟩, .of_nil rfl⟩

/-- The code of a class mentions words. -/
theorem ClassDecl.LowersTo.isWord_names {code : ClassCode} (lowers : decl.LowersTo program code)
    (words : ∀ name ∈ decl.declaredNames, IsWord name) : ∀ name ∈ code.names, IsWord name := by
  obtain ⟨init, methods, first, later, rfl⟩ := lowers.exists_methods
  obtain ⟨own, others⟩ := forall_mem_cons.mp words
  obtain ⟨base, others⟩ := forall_mem_append.mp others
  obtain ⟨names, others⟩ := forall_mem_append.mp others
  obtain ⟨-, declared⟩ := forall_mem_append.mp others
  refine forall_mem_cons.mpr ⟨own, forall_mem_append.mpr ⟨base, ?_⟩⟩
  refine forall_mem_append.mpr ⟨names, forall_mem_append.mpr ⟨first.isWord_names fields words, ?_⟩⟩
  intro name mem
  obtain ⟨code, inside, named⟩ := mem_flatMap.mp mem
  obtain ⟨method, among, lowers⟩ := exists_of_forall₂ later.flip inside
  refine Method.LowersTo.isWord_names fields lowers (fun name own => ?_) name named
  exact declared name (mem_flatMap.mpr ⟨method, among, own⟩)

end Fields

/-- The names of the class of a program without an entry method are words. -/
theorem isWord_defaultClass : ∀ name ∈ defaultClass.names, IsWord name :=
  forall_mem_cons.mpr ⟨.of_all (by decide) (by decide),
    forall_mem_singleton.mpr (.of_all (by decide) (by decide))⟩

/-- The code of a program mentions words, if the names that the program declares are words. -/
theorem Program.isWord_names {artifact : Artifact} (lowered : program.lower = .ok artifact)
    (words : ∀ name ∈ program.declaredNames, IsWord name) :
    ∀ name ∈ artifact.names, IsWord name := by
  obtain ⟨codes, classes, rfl⟩ := exists_classes_of_lower lowered
  have own : ∀ name ∈ codes.flatMap ClassCode.names, IsWord name := by
    intro name mem
    obtain ⟨code, inside, named⟩ := mem_flatMap.mp mem
    obtain ⟨decl, among, lowers⟩ := exists_of_forall₂ classes.flip inside
    have declared : ∀ name ∈ decl.declaredNames, IsWord name := fun name own =>
      words name (mem_flatMap.mpr ⟨decl, among, own⟩)
    exact ClassDecl.LowersTo.isWord_names (fieldsWorded words among) lowers declared name
      named
  unfold artifactOf Artifact.names
  split
  · exact own
  · rw [flatMap_append, flatMap_singleton]
    exact forall_mem_append.mpr ⟨own, isWord_defaultClass⟩

/-- A program starts at a method of a class, both of which have words as names. -/
theorem Program.isWord_entry {artifact : Artifact} (lowered : program.lower = .ok artifact)
    (words : ∀ name ∈ program.declaredNames, IsWord name) :
    ∃ owner method, artifact.entry = owner ++ "." ++ method ∧ IsWord owner ∧ IsWord method := by
  obtain ⟨codes, -, rfl⟩ := exists_classes_of_lower lowered
  unfold artifactOf
  split
  · next decl found =>
      refine ⟨decl.name, entryMethodName, rfl, ?_, .of_all (by decide) (by decide)⟩
      have among := mem_of_find?_eq_some found
      exact words _ (mem_flatMap.mpr ⟨decl, among, mem_cons_self⟩)
  · exact ⟨defaultClassName, defaultMethodName, rfl,
      .of_all (by decide) (by decide),
      .of_all (by decide) (by decide)⟩

end Programs

end ClassLang
