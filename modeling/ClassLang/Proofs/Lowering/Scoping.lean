import ClassLang.Proofs.Capture
import ClassLang.Proofs.Lowering.Assembly
import ClassLang.Proofs.Lowering.Classes

/-! # Slots and scopes

Which slot a name has in the code of a method is told from the text of the method alone. Variables are
numbered in the order of the text, after the parameters, and a name means the innermost and latest of
the declarations in view, or else a field. The code of a method uses its slots and fields as the text
says, in the order of the text. -/

namespace ClassLang

open List Stmt Instruction Locals

/-! ## Uses in the text -/

mutual

/-- The variables that a statement declares, those of the blocks in it included, in the order of the
text. -/
def Stmt.variables : Stmt → List String
  | .declare name _ _ => [name]
  | .branch _ body none _ => blockVariables body
  | .branch _ body (some alternative) _ =>
    blockVariables body ++ blockVariables alternative
  | .loop _ body _ => blockVariables body
  | _ => []

/-- The variables that statements declare in the order of the text. -/
def Stmt.blockVariables : List Stmt → List String
  | [] => []
  | stmt :: rest => stmt.variables ++ blockVariables rest

end

/-- The declarations in view after a statement, if the next variable gets the slot `next`. Those in
the blocks of the statement are not in view. -/
def Stmt.viewAfter (view : List (String × Nat)) (next : Nat) : Stmt → List (String × Nat)
  | .declare name _ _ => (name, next) :: view
  | _ => view

/-- A use of a variable or a field by its name. -/
structure Access where
  name : String
  /-- Where its value is stored, if the name means anything. -/
  storage? : Option Storage
  /-- Whether the value is set. -/
  sets : Bool
  deriving DecidableEq, Repr

section Text

variable (owner? : String → Option String) (view : List (String × Nat))

/-- Where the value of a name is stored: in the slot of the first declaration in view, or else in a
field. -/
def storageInView (name : String) : Option Storage :=
  match view.lookup name with
  | some slot => some (.slot slot)
  | none => (owner? name).map .field

/-- The use that an occurrence of a name is. A member of the current object is always a field. -/
def Occurrence.access (occurrence : Occurrence) : Access :=
  { name := occurrence.name
    storage? :=
      if occurrence.ofSelf then (owner? occurrence.name).map .field
      else storageInView owner? view occurrence.name
    sets := false }

/-- The uses of names in an expression. -/
def Expr.accesses (expr : Expr) : List Access :=
  expr.occurrences.map (Occurrence.access owner? view)

/-- The use of a name that is assigned to. -/
def Expr.targetAccesses : Expr → List Access
  | .ident name _ _ => [⟨name, storageInView owner? view name, true⟩]
  | _ => []

mutual

/-- The uses of names in a statement, given the declarations in view and the slot of the next
variable. -/
def Stmt.accesses (view : List (String × Nat)) (next : Nat) : Stmt → List Access
  | .declare name init _ => init.accesses owner? view ++ [⟨name, some (.slot next), true⟩]
  | .assign target value _ => value.accesses owner? view ++ target.targetAccesses owner? view
  | .branch test body none _ =>
    test.accesses owner? view ++ blockAccesses view next body
  | .branch test body (some alternative) _ =>
    test.accesses owner? view ++ blockAccesses view next body ++
      blockAccesses view (next + (blockVariables body).length) alternative
  | .loop test body _ => test.accesses owner? view ++ blockAccesses view next body
  | .ret value _ => value.accesses owner? view
  | .leave _ => []
  | .eval value _ => value.accesses owner? view

/-- The uses of names in statements, each of which is in view of the declarations before it. -/
def Stmt.blockAccesses (view : List (String × Nat)) (next : Nat) : List Stmt → List Access
  | [] => []
  | stmt :: rest =>
    stmt.accesses view next ++
      blockAccesses (stmt.viewAfter view next) (next + stmt.variables.length) rest

end

/-- The uses of names when the fields of a new object are set. -/
def ClassDecl.fieldAccesses (decl : ClassDecl) : List Access :=
  decl.fields.flatMap fun field =>
    field.init.accesses owner? [] ++ [⟨field.name, some (.field decl.name), true⟩]

end Text

/-! ## Uses in code -/

/-- The use of a variable or a field that an instruction is, if it is one; the name of a slot is
looked up. -/
def Instruction.access? (slots : List String) : Instruction → Option (Option Access)
  | .loadLocal slot => some (slots[slot]?.map fun name => ⟨name, some (.slot slot), false⟩)
  | .storeLocal slot => some (slots[slot]?.map fun name => ⟨name, some (.slot slot), true⟩)
  | .loadField owner name => some (some ⟨name, some (.field owner), false⟩)
  | .storeField owner name => some (some ⟨name, some (.field owner), true⟩)
  | _ => none

/-- The uses of variables and fields in code. -/
def codeAccesses (slots : List String) (code : List Instruction) : List (Option Access) :=
  code.filterMap (access? slots)

/-- The code of a method keeps to the scopes of its text: there is a slot for each parameter and each
variable, only these slots are used, and names are used as the text says. -/
structure MethodCode.Scoped (owner? : String → Option String) (params : List String)
    (before : List Access) (body : List Stmt) (code : MethodCode) : Prop where
  /-- The slots are those of the parameters and of the variables in the order of the text. -/
  slots : code.slots = params ++ blockVariables body
  /-- Only these slots are used. -/
  bounded : ∀ slot, .loadLocal slot ∈ code.code ∨ .storeLocal slot ∈ code.code →
    slot < code.slots.length
  /-- Slots and fields are used as the text says. The last of several parameters of one name is the
  one in view. -/
  accesses : codeAccesses code.slots code.code =
    (before ++ blockAccesses owner? params.zipIdx.reverse params.length body).map some

section Code

variable (slots : List String)

@[simp] theorem codeAccesses_append (first second : List Instruction) :
    codeAccesses slots (first ++ second) = codeAccesses slots first ++ codeAccesses slots second :=
  filterMap_append

@[simp] theorem codeAccesses_nil : codeAccesses slots [] = [] := rfl

@[simp] theorem codeAccesses_cons (instruction : Instruction) (rest : List Instruction) :
    codeAccesses slots (instruction :: rest) =
      (instruction.access? slots).toList ++ codeAccesses slots rest := by
  unfold codeAccesses
  rw [filterMap_cons]
  cases instruction.access? slots <;> rfl

@[simp] theorem codeAccesses_widenIf (condition : Prop) [Decidable condition] :
    codeAccesses slots (if condition then [.widen] else []) = [] := by
  split <;> rfl

@[simp] theorem codeAccesses_conversion (type : BuiltinType) (kind : Option Scalar) :
    codeAccesses slots (conversion type kind) = [] := by
  unfold conversion
  split <;> rfl

@[simp] theorem BinaryOp.codeAccesses_code (op : BinaryOp) : codeAccesses slots op.code = [] := by
  cases op <;> rfl

@[simp] theorem Operation.codeAccesses_code (operation : Operation) :
    codeAccesses slots operation.code = [] := by
  cases operation <;> rfl

variable {slots}

/-- Where the uses in code are those of a text, every slot that is used has a name. -/
theorem lt_length_of_codeAccesses {code : List Instruction} {accesses : List Access}
    (same : codeAccesses slots code = accesses.map some) {slot : Nat}
    (used : .loadLocal slot ∈ code ∨ .storeLocal slot ∈ code) : slot < slots.length := by
  have named (access? : Option Access) (mem : access? ∈ codeAccesses slots code) :
      access?.isSome = true := by
    rw [same] at mem
    obtain ⟨access, -, rfl⟩ := mem_map.mp mem
    rfl
  have found : (slots[slot]?).isSome = true := by
    rcases used with mem | mem
    · have here := named _ (mem_filterMap.mpr ⟨_, mem, rfl⟩)
      rwa [Option.isSome_map] at here
    · have here := named _ (mem_filterMap.mpr ⟨_, mem, rfl⟩)
      rwa [Option.isSome_map] at here
  simpa using found

end Code

theorem getElem?_of_isPrefix {names slots : List String} (table : names <+: slots) {slot : Nat}
    {name : String} (named : names[slot]? = some name) : slots[slot]? = some name := by
  obtain ⟨more, rfl⟩ := table
  rwa [List.getElem?_append_left (List.getElem?_eq_some_iff.mp named).1]

/-! ## Declarations in view -/

namespace Locals

variable {ι : Type} {locals : Locals ι}

/-- The declarations in view with their slots, innermost and latest first. -/
def view (locals : Locals ι) : List (String × Nat) :=
  locals.scopes.flatten.map fun entry => (entry.1, entry.2.slot)

theorem view_declare (nonempty : locals.scopes ≠ []) (name : String) (info : ι) :
    (locals.declare name info).view = (name, locals.nextSlot) :: locals.view := by
  obtain ⟨scope, outer, scopes⟩ := exists_cons_of_ne_nil nonempty
  simp [view, declare, scopes]

theorem view_of_scopes {later : Locals ι} (scopes : later.scopes = locals.scopes) :
    later.view = locals.view := by
  rw [view, view, scopes]

/-- A variable is found if its declaration is the first of its name in view. -/
theorem lookup_view (locals : Locals ι) (name : String) :
    locals.view.lookup name = (locals.lookup name).map Local.slot := by
  unfold view lookup
  induction locals.scopes with
  | nil => rfl
  | cons scope outer ih =>
    rw [flatten_cons, map_append, lookup_append, ih, findSome?_cons]
    induction scope with
    | nil => rfl
    | cons entry rest inner =>
      rw [map_cons, lookup_cons, lookup_cons]
      by_cases same : name == entry.1
      · simp [same]
      · simpa [same] using inner

/-- Whether the slots of declarations in view have their names. -/
def Named (locals : Locals ι) : Prop :=
  ∀ entry ∈ locals.view, locals.names[entry.2]? = some entry.1

/-- A declaration gives its slot its name. -/
theorem Named.declare (named : locals.Named) (nonempty : locals.scopes ≠ []) (name : String)
    (info : ι) : (locals.declare name info).Named := by
  intro entry mem
  have names : (locals.declare name info).names = locals.names ++ [name] := rfl
  rw [view_declare nonempty] at mem
  rw [names]
  rcases mem_cons.mp mem with rfl | mem
  · simp [nextSlot]
  · exact getElem?_of_isPrefix (prefix_append _ _) (named entry mem)

/-- Declarations that are in view again have the names they had. -/
theorem Named.mono {later : Locals ι} (named : locals.Named) (scopes : later.scopes = locals.scopes)
    (names : locals.names <+: later.names) : later.Named := by
  intro entry mem
  rw [view, scopes] at mem
  exact getElem?_of_isPrefix names (named entry mem)

@[simp] theorem names_exit (locals : Locals ι) : locals.exit.names = locals.names := by
  unfold exit
  split <;> rfl

end Locals

/-- A name is stored where the first declaration in view says, or else in a field. -/
theorem Frame.storage?_eq (frame : Frame) (name : String) :
    frame.storage? name = storageInView frame.owner? frame.locals.view name := by
  rw [Frame.storage?, storageInView, lookup_view]
  cases frame.locals.lookup name <;> rfl

/-! ## Expressions -/

section Expressions

variable {slots : List String} {frame : Frame} {expr : Expr} {code : List Instruction}

/-- The first declaration of a name in view has the name in the table of slots. -/
theorem Locals.Named.getElem?_of_view {ι : Type} {locals : Locals ι} (named : locals.Named)
    (table : locals.names <+: slots) {name : String} {slot : Nat}
    (inView : locals.view.lookup name = some slot) : slots[slot]? = some name :=
  getElem?_of_isPrefix table (named (name, slot) (mem_of_lookup inView))

/-- A name is stored in a slot because of a declaration in view. -/
theorem lookup_of_storageInView {owner? : String → Option String} {view : List (String × Nat)}
    {name : String} {slot : Nat} (stored : storageInView owner? view name = some (.slot slot)) :
    view.lookup name = some slot := by
  unfold storageInView at stored
  cases inView : view.lookup name with
  | some found =>
    rw [inView] at stored
    cases stored
    rfl
  | none => simp [inView] at stored

namespace Expr

/-- The code of an expression uses names as the expression does. -/
theorem Emits.codeAccesses_eq (emits : Emits frame expr code) (named : frame.locals.Named)
    (table : frame.locals.names <+: slots) :
    codeAccesses slots code = (expr.accesses frame.owner? frame.locals.view).map some := by
  induction emits with
  | literal known =>
    rw [accesses, occurrences_of_known known]
    rfl
  | self => rfl
  | @slot name types _ found looked =>
    have storage := frame.storage?_eq name
    rw [Frame.storage?, looked] at storage
    have slotName := named.getElem?_of_view table (lookup_of_storageInView storage.symm)
    simp [access?, slotName, accesses, occurrences, Occurrence.access, ← storage]
  | @field name owner types _ looked owned =>
    have storage := frame.storage?_eq name
    rw [Frame.storage?, looked, owned] at storage
    simp [loadFieldCode, access?, accesses, occurrences, Occurrence.access, ← storage]
  | member owned =>
    simp [loadFieldCode, access?, accesses, occurrences, Occurrence.access, owned]
  | binary _ _ first second =>
    simp [widenFirst, widenSecond, first, second, accesses, occurrences]
  | write _ operand =>
    simp [operand, access?, accesses, occurrences, listOccurrences]
  | convert _ _ _ operand =>
    simp [operand, accesses, occurrences, listOccurrences]
  | unary _ _ operand =>
    simp [operand, accesses, occurrences, listOccurrences]
  | pair _ _ _ first second =>
    simp [widenFirst, widenSecond, first, second, accesses, occurrences, listOccurrences]

theorem codeAccesses_lower (lowered : expr.lower frame = .ok code) (named : frame.locals.Named)
    (table : frame.locals.names <+: slots) :
    codeAccesses slots code = (expr.accesses frame.owner? frame.locals.view).map some :=
  (emits_lower lowered).codeAccesses_eq named table

end Expr

/-- The code of an assignment uses names as its sides do. -/
theorem Frame.codeAccesses_assignCode {target value : Expr}
    (lowered : frame.assignCode target value = .ok code) (named : frame.locals.Named)
    (table : frame.locals.names <+: slots) :
    codeAccesses slots code =
      (value.accesses frame.owner? frame.locals.view ++
        target.targetAccesses frame.owner? frame.locals.view).map some := by
  unfold assignCode at lowered
  split at lowered
  · next name types position =>
      obtain ⟨valueCode, evaluated, lowered⟩ := exists_ok_of_bind lowered
      have uses := Expr.codeAccesses_lower evaluated named table
      rw [frame.storage?_eq name] at lowered
      split at lowered
      · next slot stored =>
          cases lowered
          have slotName := named.getElem?_of_view table (lookup_of_storageInView stored)
          simp [uses, access?, Expr.targetAccesses, stored, slotName]
      · next owner stored =>
          cases lowered
          simp [uses, access?, Expr.targetAccesses, stored]
      · cases lowered
  · cases lowered

end Expressions

/-! ## Statements -/

namespace Emitter

variable (emitter : Emitter)

@[simp] theorem names_exit : emitter.exit.frame.locals.names = emitter.frame.locals.names :=
  Locals.names_exit _

@[simp] theorem names_enter : emitter.enter.frame.locals.names = emitter.frame.locals.names := rfl

@[simp] theorem names_takeLabels :
    emitter.takeLabels.frame.locals.names = emitter.frame.locals.names := rfl

@[simp] theorem view_enter : emitter.enter.frame.locals.view = emitter.frame.locals.view := rfl

@[simp] theorem view_takeLabels :
    emitter.takeLabels.frame.locals.view = emitter.frame.locals.view := rfl

@[simp] theorem owner?_exit : emitter.exit.frame.owner? = emitter.frame.owner? := rfl

@[simp] theorem owner?_enter : emitter.enter.frame.owner? = emitter.frame.owner? := rfl

@[simp] theorem owner?_takeLabels : emitter.takeLabels.frame.owner? = emitter.frame.owner? := rfl

theorem Grows.owner?_eq {emitter final : Emitter} (grows : emitter.Grows final) :
    final.frame.owner? = emitter.frame.owner? := by
  funext name
  rw [Frame.owner?, Frame.owner?, grows.program, grows.decl]

end Emitter

/-- The declarations in view after statements. -/
def Stmt.blockViewAfter (view : List (String × Nat)) (next : Nat) :
    List Stmt → List (String × Nat)
  | [] => view
  | stmt :: rest =>
    blockViewAfter (stmt.viewAfter view next) (next + stmt.variables.length) rest

namespace Stmt.Emits

variable {slots : List String} {exit? : Option Label} {emitter final : Emitter}
  {block : List Stmt} {code : List Instruction}

section Emitted

variable (emits : Emits exit? emitter block code final)

include emits

/-- The variables of statements get the next slots in the order of the text. -/
theorem names_eq :
    final.frame.locals.names = emitter.frame.locals.names ++ blockVariables block := by
  induction emits with
  | nothing | assign | ret | leave | eval => exact (append_nil _).symm
  | sequence _ _ first second => simp [first, second, blockVariables]
  | declare => rfl
  | branch _ _ taken | loop _ _ taken => simp [taken, Stmt.blockVariables, Stmt.variables]
  | alternative _ _ _ taken otherwise =>
    simp [taken, otherwise, Stmt.blockVariables, Stmt.variables]

theorem nextSlot_eq :
    final.frame.locals.nextSlot =
      emitter.frame.locals.nextSlot + (blockVariables block).length := by
  rw [nextSlot, emits.names_eq, length_append]
  rfl

theorem names_prefix : emitter.frame.locals.names <+: final.frame.locals.names :=
  ⟨_, emits.names_eq.symm⟩

theorem names_prefix_exit : emitter.frame.locals.names <+: final.exit.frame.locals.names := by
  rw [Emitter.names_exit]
  exact emits.names_prefix

/-- Behind a block, the scopes are those around it. -/
theorem exit_scopes {scopes : List (List (String × Local (Option Scalar)))} (nonempty : scopes ≠ [])
    (opened : emitter.frame.locals.scopes = [] :: scopes) :
    final.exit.frame.locals.scopes = scopes := by
  obtain ⟨new, scope, outer, before, after⟩ := (emits.grows (opened ▸ cons_ne_nil _ _)).scopes
  obtain ⟨rfl, rfl⟩ : [] = scope ∧ scopes = outer := cons.inj (opened.symm.trans before)
  obtain ⟨scope, outer, rfl⟩ := exists_cons_of_ne_nil nonempty
  simp [Emitter.exit, exit, after]

/-- The declarations in view behind statements are those that the text shows. -/
theorem view_eq (nonempty : emitter.frame.locals.scopes ≠ []) :
    final.frame.locals.view =
      blockViewAfter emitter.frame.locals.view emitter.frame.locals.nextSlot block := by
  induction emits with
  | nothing | assign | ret | leave | eval => rfl
  | sequence before _ first second =>
    rw [second (before.grows nonempty).nonempty, first nonempty, before.nextSlot_eq]
    simp [blockViewAfter, blockVariables]
  | declare => exact view_declare nonempty _ _
  | branch _ inner | loop _ inner =>
    exact view_of_scopes (inner.exit_scopes nonempty rfl)
  | alternative _ inner other =>
    have back := inner.exit_scopes nonempty rfl
    exact view_of_scopes ((other.exit_scopes (back ▸ nonempty) rfl).trans back)

end Emitted

/-- The slots of declarations in view have their names. -/
theorem named (emits : Emits exit? emitter block code final)
    (nonempty : emitter.frame.locals.scopes ≠ []) (named : emitter.frame.locals.Named) :
    final.frame.locals.Named := by
  have kept := emits.names_prefix
  induction emits with
  | nothing | assign | ret | leave | eval => exact named
  | sequence before after first second =>
    exact second (before.grows nonempty).nonempty (first nonempty named before.names_prefix)
      after.names_prefix
  | declare => exact named.declare nonempty _ _
  | branch _ inner | loop _ inner => exact named.mono (inner.exit_scopes nonempty rfl) kept
  | alternative _ inner other =>
    have back := inner.exit_scopes nonempty rfl
    exact named.mono ((other.exit_scopes (back ▸ nonempty) rfl).trans back) kept

/-- The code of statements uses names as the statements do. -/
theorem codeAccesses_eq (emits : Stmt.Emits exit? emitter block code final)
    (nonempty : emitter.frame.locals.scopes ≠ []) (named : emitter.frame.locals.Named)
    (table : final.frame.locals.names <+: slots) :
    codeAccesses slots code =
      (blockAccesses emitter.frame.owner? emitter.frame.locals.view
        emitter.frame.locals.nextSlot block).map some := by
  have here := emits.names_prefix.trans table
  induction emits with
  | nothing => rfl
  | sequence before after first second =>
    have grows := before.grows nonempty
    have middle := after.names_prefix.trans table
    rw [codeAccesses_append, first nonempty named middle here,
      second grows.nonempty (before.named nonempty named) table middle, before.view_eq nonempty,
      before.nextSlot_eq, grows.owner?_eq]
    simp [blockAccesses, blockVariables, blockViewAfter]
  | @declare exit? emitter name init _ code lowered =>
    have slotName : slots[emitter.frame.locals.nextSlot]? = some name := by
      refine getElem?_of_isPrefix table ?_
      simp [Emitter.declare, Locals.declare, Locals.nextSlot]
    have uses := Expr.codeAccesses_lower lowered named here
    simp [uses, access?, slotName, blockAccesses, accesses]
  | assign lowered =>
    have uses := Frame.codeAccesses_assignCode lowered named here
    simp [uses, blockAccesses, accesses]
  | branch lowered inner taken =>
    have uses := Expr.codeAccesses_lower lowered named here
    rw [Emitter.names_exit] at table
    have within := taken (cons_ne_nil _ _) named table here
    simp [branchCode, uses, within, access?, blockAccesses, accesses, Locals.nextSlot]
  | alternative lowered inner other taken otherwise =>
    have uses := Expr.codeAccesses_lower lowered named here
    rw [Emitter.names_exit] at table
    have between := other.names_prefix.trans table
    rw [Emitter.names_enter] at between
    have within := taken (cons_ne_nil _ _) named (Emitter.names_exit _ ▸ between) here
    -- the second block starts with the scopes of the first, and with the slots behind it
    have back := inner.exit_scopes nonempty rfl
    have owner := (inner.grows (cons_ne_nil _ _)).owner?_eq
    have still := named.mono back inner.names_prefix_exit
    have without := otherwise (cons_ne_nil _ _) still table between
    simp [branchCode, uses, within, without, owner, Locals.view_of_scopes back, inner.names_eq,
      access?, blockAccesses, accesses, Locals.nextSlot]
  | loop lowered inner repeated =>
    have uses := Expr.codeAccesses_lower lowered named here
    rw [Emitter.names_exit] at table
    have within := repeated (cons_ne_nil _ _) named table here
    simp [loopCode, uses, within, access?, blockAccesses, accesses, Locals.nextSlot]
  | ret lowered =>
    have uses := Expr.codeAccesses_lower lowered named here
    simp [uses, access?, blockAccesses, accesses]
  | leave => rfl
  | eval lowered =>
    have uses := Expr.codeAccesses_lower lowered named here
    unfold evalCode
    split <;> simp [uses, access?, blockAccesses, accesses]

end Stmt.Emits

/-! ## Methods -/

/-- Parameters get slots in their order, and the last one comes first into view. -/
theorem Locals.foldl_declare {ι : Type} (params : List (String × ι)) {locals : Locals ι}
    (allocated : locals.Allocated) (named : locals.Named) :
    let after := params.foldl (fun locals param => locals.declare param.1 param.2) locals
    after.names = locals.names ++ params.map Prod.fst ∧
      after.view = ((params.map Prod.fst).zipIdx locals.nextSlot).reverse ++ locals.view ∧
      after.Named := by
  induction params generalizing locals with
  | nil => exact ⟨(append_nil _).symm, rfl, named⟩
  | cons param rest ih =>
    have declared := ih (allocated.declare param.1 param.2)
      (named.declare allocated.nonempty param.1 param.2)
    obtain ⟨names, view, named'⟩ := declared
    refine ⟨?_, ?_, named'⟩
    · rw [foldl_cons, names]
      simp [declare]
    · rw [foldl_cons, view, view_declare allocated.nonempty]
      simp

theorem Locals.ofParams_facts {ι : Type} (params : List (String × ι)) :
    (ofParams params).names = params.map Prod.fst ∧
      (ofParams params).view = (params.map Prod.fst).zipIdx.reverse ∧ (ofParams params).Named := by
  obtain ⟨names, view, named⟩ := foldl_declare params (Reached.start []).allocated nofun
  exact ⟨names, view.trans (append_nil _), named⟩

section Methods

variable {program : Program} {decl : ClassDecl}

/-- The statements of a method use slots and fields as the text says. -/
theorem Stmt.scoped_lowerBlock {params : List Param} {low : Nat} {block : List Stmt}
    {code : List Instruction} {final : Emitter}
    (lowered : lowerBlock none (Emitter.ofParams program decl params low) block =
      .ok (code, final)) :
    final.frame.locals.names = params.map Param.name ++ blockVariables block ∧
      codeAccesses final.frame.locals.names code =
        (blockAccesses (program.owner? decl) (params.map Param.name).zipIdx.reverse
          (params.map Param.name).length block).map some := by
  have emits := emits_lowerBlock block lowered
  obtain ⟨names, view, named⟩ :=
    ofParams_facts (params.map fun param => (param.name, Scalar.ofType? param.type))
  rw [map_map] at names view
  have uses := emits.codeAccesses_eq (Reached.start _).allocated.nonempty named prefix_rfl
  refine ⟨?_, ?_⟩
  · rw [emits.names_eq]
    exact congrArg (· ++ blockVariables block) names
  · rw [uses]
    simp only [Emitter.ofParams, view, names, nextSlot]
    rfl

/-- The code of a method uses slots and fields as the text says. -/
theorem Method.LowersTo.scoping {method : Method} {code : MethodCode}
    (lowers : method.LowersTo program decl code) :
    code.Scoped (program.owner? decl) (method.params.map Param.name) [] method.body := by
  obtain ⟨low, body, final, lowered, rfl⟩ := lowers.exists_body
  obtain ⟨names, uses⟩ := scoped_lowerBlock lowered
  have all : codeAccesses final.frame.locals.names (closeCode method.result body) =
      codeAccesses final.frame.locals.names body := by
    obtain ⟨closing, closed, rfl | rfl⟩ := closeCode_cases method.result body
    · rw [closed, append_nil]
    · rw [closed, codeAccesses_append]
      exact append_nil _
  have whole := all.trans uses
  exact ⟨names, fun slot used => lt_length_of_codeAccesses whole used, whole⟩

/-- The code that sets fields uses names as their initial values do. -/
theorem Frame.codeAccesses_fieldsCode {slots : List String} {frame : Frame} {fields : List Field}
    {code : List Instruction} (lowered : frame.fieldsCode fields = .ok code)
    (named : frame.locals.Named) (table : frame.locals.names <+: slots) :
    codeAccesses slots code =
      (fields.flatMap fun field => field.init.accesses frame.owner? frame.locals.view ++
        [⟨field.name, some (.field frame.decl.name), true⟩]).map some := by
  induction fields generalizing code with
  | nil =>
    cases lowered
    rfl
  | cons field rest ih =>
    obtain ⟨init, initial, lowered⟩ := exists_ok_of_bind lowered
    obtain ⟨restCode, later, result⟩ := exists_ok_of_bind lowered
    cases result
    simp [Expr.codeAccesses_lower initial named table, ih later, access?]

/-- The code that sets up a new object uses slots and fields as the text says. -/
theorem ClassDecl.InitLowersTo.scoping {code : MethodCode} (lowers : decl.InitLowersTo program code) :
    code.Scoped (program.owner? decl) [] (decl.fieldAccesses (program.owner? decl)) decl.init := by
  obtain ⟨low, fields, body, final, initial, lowered, rfl⟩ := lowers.exists_body
  obtain ⟨names, uses⟩ := scoped_lowerBlock lowered
  have before := Frame.codeAccesses_fieldsCode initial (ofParams_facts []).2.2
    ( nil_prefix : [] <+: final.frame.locals.names)
  have whole : codeAccesses final.frame.locals.names (fields ++ body ++ [Instruction.ret]) =
      (decl.fieldAccesses (program.owner? decl) ++
        blockAccesses (program.owner? decl) [] 0 decl.init).map some := by
    rw [codeAccesses_append, codeAccesses_append, before, uses, map_append]
    exact append_nil _
  exact ⟨names, fun slot used => lt_length_of_codeAccesses whole used, whole⟩

end Methods

/-! ## Programs -/

/-- The code of the methods of a class keeps to their scopes. -/
def ClassDecl.KeepsScopes (program : Program) (decl : ClassDecl) (code : ClassCode) : Prop :=
  ∃ init methods, code.methods = init :: methods ∧
    init.Scoped (program.owner? decl) [] (decl.fieldAccesses (program.owner? decl)) decl.init ∧
    List.Forall₂ (fun (method : Method) (code : MethodCode) =>
      code.Scoped (program.owner? decl) (method.params.map Param.name) [] method.body)
      decl.methods methods

/-- In the code of a program, each method has one slot for each parameter and each variable, in the
order of the text, and uses only these. A name stands for the slot of the innermost and latest
declaration in view, and for a field only if no declaration of the name is. -/
theorem Program.scoped_lower {program : Program} {artifact : Artifact}
    (lowered : program.lower = .ok artifact) :
    ∃ codes, artifact = program.artifactOf codes ∧
      List.Forall₂ (ClassDecl.KeepsScopes program) program.classes codes := by
  obtain ⟨codes, classes, rfl⟩ := exists_classes_of_lower lowered
  refine ⟨codes, rfl, classes.imp fun decl code lowers => ?_⟩
  obtain ⟨init, methods, first, later, rfl⟩ := lowers.exists_methods
  exact ⟨init, methods, rfl, first.scoping, later.imp fun _ _ lowers => lowers.scoping⟩

/-- A method with two parameters of one name, with variables that hide a field in both blocks of a
branch, and with a variable that is declared again in a loop and behind it. -/
def hiddenNames : Program :=
  let here : Position := ⟨1, 1⟩
  let name (text : String) : Expr := .ident text [] here
  let integer : TypeRef := ⟨"Integer", [], here⟩
  let below (text : String) : Expr := .binary .lt (name text) (.int "9" here) here
  let body : List Stmt :=
    [.declare "y" (name "n") here,
      .branch (below "y") [.declare "x" (name "y") here, .assign (name "x") (name "n") here]
        (some [.declare "x" (name "x") here]) here,
      .loop (below "x") [.declare "y" (name "x") here, .assign (name "y") (name "y") here] here,
      .declare "y" (name "y") here, .ret (name "y") here]
  ⟨[⟨"A", none, [], [.field ⟨"x", .int "1" here, here⟩,
    .method ⟨"main", [⟨"n", integer, here⟩, ⟨"n", integer, here⟩], some integer, body, here⟩], here⟩]⟩

/-- The slots of this method, and what its code uses by which name. -/
theorem Program.scoped_lower_hiddenNames :
    ∃ artifact init code, hiddenNames.lower = .ok artifact ∧
      artifact.classes.map ClassCode.methods = [[init, code]] ∧
      code.slots = ["n", "n", "y", "x", "x", "y", "y"] ∧
      codeAccesses code.slots code.code =
        [some ⟨"n", some (.slot 1), false⟩, some ⟨"y", some (.slot 2), true⟩,
          some ⟨"y", some (.slot 2), false⟩,
          some ⟨"y", some (.slot 2), false⟩, some ⟨"x", some (.slot 3), true⟩,
          some ⟨"n", some (.slot 1), false⟩, some ⟨"x", some (.slot 3), true⟩,
          some ⟨"x", some (.field "A"), false⟩, some ⟨"x", some (.slot 4), true⟩,
          some ⟨"x", some (.field "A"), false⟩,
          some ⟨"x", some (.field "A"), false⟩, some ⟨"y", some (.slot 5), true⟩,
          some ⟨"y", some (.slot 5), false⟩, some ⟨"y", some (.slot 5), true⟩,
          some ⟨"y", some (.slot 2), false⟩, some ⟨"y", some (.slot 6), true⟩,
          some ⟨"y", some (.slot 6), false⟩] := by
  have lowers : ∃ artifact, hiddenNames.lower = .ok artifact := ⟨_, rfl⟩
  obtain ⟨artifact, lowered⟩ := lowers
  obtain ⟨codes, rfl, classes⟩ := Program.scoped_lower lowered
  -- there is one class with one method besides the one that sets up an object
  obtain ⟨code, rest, ⟨init, methods, found, -, scopes⟩, none, rfl⟩ :=
    forall₂_cons_left_iff.mp classes
  obtain rfl := forall₂_nil_left_iff.mp none
  obtain ⟨main, more, keeps, last, rfl⟩ := forall₂_cons_left_iff.mp scopes
  obtain rfl := forall₂_nil_left_iff.mp last
  exact ⟨_, init, main, lowered, congrArg (fun methods => [methods]) found, keeps.slots,
    keeps.accesses⟩

end ClassLang
