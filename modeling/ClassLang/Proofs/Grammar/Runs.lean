import ClassLang.Proofs.Grammar.Consumption

/-! # Runs of readings

A reading is run step by step: it looks at its reader, moves past a token, enters a level, returns to
the depth from before or fails. Since readings are written in terms of these steps, they can also be
run with a record of their moments (`Recording`), which changes nothing else (`Recording.erase`). Each
step keeps the depth within its limit, so all moments of a run do, and only entering one level too many
is reported as nesting too deeply. -/

namespace ClassLang

open List

/-! ## Records -/

/-- A moment of a run: the reader behind a step, and the fault with which it fails there, if it does. -/
structure Moment where
  /-- The reader at that moment. -/
  reader : Reader
  /-- The fault that is raised. -/
  raised : Option Fault
  deriving DecidableEq, Repr

/-- A reader with a record of the moments passed. -/
structure Recorder where
  /-- The reader at present. -/
  reader : Reader
  /-- The moments so far, earliest first. -/
  moments : List Moment
  deriving DecidableEq, Repr

/-- Add a moment to the record. -/
def Recorder.note (recorder : Recorder) (reader : Reader) (raised : Option Fault) : Recorder :=
  ⟨reader, recorder.moments ++ [⟨reader, raised⟩]⟩

/-- A reading that notes every moment at which the reader is changed or reading fails. -/
def Recording (α : Type) : Type := EStateM Fault Recorder α

namespace Recording

instance : Monad Recording := inferInstanceAs (Monad (EStateM Fault Recorder))

instance : MonadFinally Recording := inferInstanceAs (MonadFinally (EStateM Fault Recorder))

instance : MonadStateOf Reader Recording where
  get recorder := .ok recorder.reader recorder
  set reader recorder := .ok ⟨⟩ (recorder.note reader none)
  modifyGet change recorder :=
    .ok (change recorder.reader).1 (recorder.note (change recorder.reader).2 none)

instance : MonadExceptOf Fault Recording where
  throw fault recorder := .error fault (recorder.note recorder.reader (some fault))
  tryCatch := EStateM.tryCatch

variable {α β : Type}

/-- The moments of a run from a reader on. -/
def moments (recording : Recording α) (reader : Reader) : List Moment :=
  match recording ⟨reader, []⟩ with
  | .ok _ recorder => recorder.moments
  | .error _ recorder => recorder.moments

/-- A recording without its record. -/
def erase (recording : Recording α) : Reading α := fun reader =>
  match recording ⟨reader, []⟩ with
  | .ok value recorder => .ok value recorder.reader
  | .error fault recorder => .error fault recorder.reader

/-- An outcome with a record. -/
def withRecord (moments : List Moment) :
    EStateM.Result Fault Reader α → EStateM.Result Fault Recorder α
  | .ok value after => .ok value ⟨after, moments⟩
  | .error fault after => .error fault ⟨after, moments⟩

/-- A recording has the outcome of a reading from a reader on, and adds the given moments to whatever
was recorded before. -/
def Records (recording : Recording α) (reading : Reading α) (reader : Reader)
    (noted : List Moment) : Prop :=
  ∀ before, recording ⟨reader, before⟩ = withRecord (before ++ noted) (reading reader)

variable {recording : Recording α} {next : α → Recording β} {reading : Reading α}
  {following : α → Reading β} {reader between : Reader} {noted later : List Moment}

/-- Without its record, a recording is what it records. -/
theorem Records.erase_eq (records : Records recording reading reader noted) :
    recording.erase reader = reading reader := by
  rw [erase, records []]
  cases reading reader <;> rfl

/-- The moments of a recording are those that it adds. -/
theorem Records.moments_eq (records : Records recording reading reader noted) :
    recording.moments reader = noted := by
  rw [moments, records []]
  cases reading reader <;> rfl

/-- What follows a reading adds its moments behind. -/
theorem Records.bind {value : α} (records : Records recording reading reader noted)
    (run : reading reader = .ok value between)
    (records' : Records (next value) (following value) between later) :
    Records (recording >>= next) (reading >>= following) reader (noted ++ later) := by
  intro before
  have first := records before
  rw [run] at first
  have second := records' (before ++ noted)
  rw [Reading.bind_of_ok run, ← append_assoc, ← second]
  change EStateM.bind recording next _ = _
  simp only [EStateM.bind, first]
  rfl

/-- Nothing is added behind a reading that fails. -/
theorem Records.fail {fault : Fault} (records : Records recording reading reader noted)
    (run : reading reader = .error fault between) :
    Records (recording >>= next) (reading >>= following) reader noted := by
  intro before
  have first := records before
  rw [run] at first
  rw [Reading.bind_of_error run]
  change EStateM.bind recording next _ = _
  simp only [EStateM.bind, first]
  rfl

/-- Returning to the depth from before is a moment at the end, whether or not reading fails. -/
theorem Records.restoringDepth (records : Records recording reading reader noted) :
    Records (Reading.restoringDepth recording) (Reading.restoringDepth reading) reader
      (noted ++ [⟨{ reading.after reader with depth := reader.depth }, none⟩]) := by
  intro before
  have inside := records before
  rw [Reading.restoringDepth_eq, ← append_assoc]
  change EStateM.bind (tryFinally' recording _) _ _ = _
  simp only [EStateM.bind, tryFinally', inside, Reading.after]
  cases reading reader <;> rfl

end Recording

namespace Reading

open Recording

variable {α β : Type} {recording : Recording α} {next : α → Recording β} {reading : Reading α}
  {following : α → Reading β} {reader between : Reader} {noted later : List Moment} {levels : Nat}

/-! ## Orderly runs -/

/-- What a run does to its reader. -/
structure Orderly (reading : Reading α) (reader : Reader) (noted : List Moment) : Prop where
  /-- Tokens are taken from the front, and the last of them is remembered. -/
  tokens : ∃ taken, reader.tokens = taken ++ (reading.after reader).tokens ∧
    (reading.after reader).last = (taken.getLast?.map Token.position).getD reader.last
  /-- The depth never exceeds the limit. -/
  depth : ∀ moment ∈ noted, moment.reader.depth ≤ maxDepth
  /-- Nesting too deeply is reported at the limit only. -/
  tooDeep : ∀ moment ∈ noted, ∀ fault, moment.raised = some fault → fault.cause = .tooDeep →
    moment.reader.depth = maxDepth
  /-- The fault of a run was raised at one of its moments. -/
  raised : ∀ fault after, reading reader = .error fault after →
    ∃ moment ∈ noted, moment.raised = some fault
  /-- The depth is within the limit at the end. -/
  within : (reading.after reader).depth ≤ maxDepth

/-- Readings in a row are orderly if both are. -/
theorem Orderly.bind {value : α} (orderly : Orderly reading reader noted)
    (run : reading reader = .ok value between) (orderly' : Orderly (following value) between later) :
    Orderly (reading >>= following) reader (noted ++ later) := by
  obtain ⟨⟨taken, tokens, last⟩, depth, tooDeep, _, _⟩ := orderly
  obtain ⟨⟨taken', tokens', last'⟩, depth', tooDeep', raised, within⟩ := orderly'
  rw [after_of_ok run] at tokens last
  have whole : (reading >>= following) reader = following value between := bind_of_ok run
  have left_eq : (reading >>= following).after reader = (following value).after between := by
    rw [Reading.after, whole, Reading.after]
  refine ⟨⟨taken ++ taken', ?_, ?_⟩, forall_mem_append.mpr ⟨depth, depth'⟩,
    forall_mem_append.mpr ⟨tooDeep, tooDeep'⟩, fun fault after failed => ?_, left_eq ▸ within⟩
  · rw [tokens, tokens', left_eq, append_assoc]
  · rw [left_eq, last', last, getLast?_append]
    cases taken'.getLast? <;> rfl
  · obtain ⟨moment, mem, raises⟩ := raised fault after (whole.symm.trans failed)
    exact ⟨moment, mem_append_right _ mem, raises⟩

/-- Nothing follows a reading that fails. -/
theorem Orderly.fail {fault : Fault} (orderly : Orderly reading reader noted)
    (run : reading reader = .error fault between) : Orderly (reading >>= following) reader noted := by
  obtain ⟨tokens, depth, tooDeep, raised, within⟩ := orderly
  have whole : (reading >>= following) reader = .error fault between := bind_of_error run
  rw [after_of_error run, ← after_of_error whole] at tokens within
  refine ⟨tokens, depth, tooDeep, fun fault' after failed => ?_, within⟩
  cases whole.symm.trans failed
  exact raised _ _ run

/-- The depth from before is within the limit. -/
theorem Orderly.restoringDepth (orderly : Orderly reading reader noted)
    (shallow : reader.depth ≤ maxDepth) : Orderly (restoringDepth reading) reader
      (noted ++ [⟨{ reading.after reader with depth := reader.depth }, none⟩]) := by
  obtain ⟨tokens, depth, tooDeep, raised, _⟩ := orderly
  refine ⟨by rwa [after_restoringDepth], forall_mem_append.mpr ⟨depth, ?_⟩,
    forall_mem_append.mpr ⟨tooDeep, ?_⟩, fun fault after failed => ?_, ?_⟩
  · exact forall_mem_singleton.mpr shallow
  · exact forall_mem_singleton.mpr nofun
  · obtain ⟨between, run, -⟩ := exists_error_of_restoringDepth failed
    obtain ⟨moment, mem, raises⟩ := raised _ _ run
    exact ⟨moment, mem_append_left _ mem, raises⟩
  · rw [after_restoringDepth]
    exact shallow

/-! ## Readings that end -/

/-- A reading is recorded, and in a grammar with enough levels its run is orderly. -/
def Ends (levels : Nat) (recording : Recording α) (reading : Reading α) : Prop :=
  ∀ reader, ∃ noted, Records recording reading reader noted ∧
    (Covers levels reader.depth → Orderly reading reader noted)

/-- It also returns to the depth that it started from. -/
structure Returns (levels : Nat) (recording : Recording α) (reading : Reading α) : Prop where
  /-- It is recorded and orderly. -/
  ends : Ends levels recording reading
  /-- The depth is the same, whether or not it fails. -/
  depth : ∀ reader, Covers levels reader.depth → (reading.after reader).depth = reader.depth

/-- What follows a reading that returns to its depth may end at another one. -/
theorem Returns.bind_ends (first : Returns levels recording reading)
    (second : ∀ value, Ends levels (next value) (following value)) :
    Ends levels (recording >>= next) (reading >>= following) := by
  intro reader
  obtain ⟨noted, records, orderly⟩ := first.ends reader
  cases run : reading reader with
  | error fault between => exact ⟨noted, records.fail run, fun covers => (orderly covers).fail run⟩
  | ok value between =>
    obtain ⟨later, records', orderly'⟩ := second value between
    refine ⟨noted ++ later, records.bind run records', fun covers => ?_⟩
    have depth := first.depth reader covers
    rw [after_of_ok run] at depth
    exact (orderly covers).bind run (orderly' (depth ▸ covers))

/-- Readings in a row return to their depth if all of them do. -/
theorem Returns.bind (first : Returns levels recording reading)
    (second : ∀ value, Returns levels (next value) (following value)) :
    Returns levels (recording >>= next) (reading >>= following) := by
  refine ⟨first.bind_ends fun value => (second value).ends, fun reader covers => ?_⟩
  have depth := first.depth reader covers
  cases run : reading reader with
  | error fault between => rw [after_of_error (bind_of_error run), ← after_of_error run, depth]
  | ok value between =>
    rw [after_of_ok run] at depth
    have depth' := (second value).depth between (depth ▸ covers)
    rw [after, bind_of_ok run, ← depth, ← depth', after]

/-- Either of two readings may be chosen. -/
theorem Returns.ite {condition : Prop} [Decidable condition] {other : Recording α}
    {other' : Reading α} (yes : Returns levels recording reading)
    (no : Returns levels other other') :
    Returns levels (if condition then recording else other)
      (if condition then reading else other') := by
  by_cases holds : condition
  · rwa [if_pos holds, if_pos holds]
  · rwa [if_neg holds, if_neg holds]

/-- Nothing is read for a value. -/
theorem returns_pure (value : α) : Returns levels (pure value) (pure value) :=
  ⟨fun _ => ⟨[], fun _ => by rw [append_nil]; rfl, fun covers =>
    ⟨⟨[], rfl, rfl⟩, forall_mem_nil _, forall_mem_nil _, nofun, covers.1⟩⟩, fun _ _ => rfl⟩

/-- A value is made of what is read. -/
theorem Returns.bind_pure {form : α → β} (returns : Returns levels recording reading) :
    Returns levels (do return form (← recording)) (do return form (← reading)) :=
  returns.bind fun _ => returns_pure _

/-- Looking at the reader is no moment of its own. -/
theorem returns_get : Returns levels get get :=
  ⟨fun _ => ⟨[], fun _ => by rw [append_nil]; rfl, fun covers =>
    ⟨⟨[], rfl, rfl⟩, forall_mem_nil _, forall_mem_nil _, nofun, covers.1⟩⟩, fun _ _ => rfl⟩

/-- A fault other than nesting too deeply may be raised at any depth. -/
theorem returns_throw {fault : Fault} (other : fault.cause ≠ .tooDeep) :
    Returns levels (throw fault : Recording α) (throw fault) := by
  refine ⟨fun reader => ⟨[⟨reader, some fault⟩], fun _ => rfl, fun covers => ?_⟩, fun _ _ => rfl⟩
  refine ⟨⟨[], rfl, rfl⟩, forall_mem_singleton.mpr covers.1, forall_mem_singleton.mpr ?_, ?_, covers.1⟩
  · rintro _ ⟨⟩ deep
    exact absurd deep other
  · rintro _ _ ⟨⟩
    exact ⟨_, mem_singleton_self _, rfl⟩

/-- Moving past a token keeps the depth. -/
theorem returns_drop : Returns levels drop drop := by
  refine ⟨fun reader => ⟨[⟨after drop reader, none⟩], fun _ => rfl, fun covers => ?_⟩, ?_⟩
  · obtain ⟨_ | ⟨token, rest⟩, last, depth⟩ := reader
    · exact ⟨⟨[], rfl, rfl⟩, forall_mem_singleton.mpr covers.1, forall_mem_singleton.mpr nofun, nofun,
        covers.1⟩
    · exact ⟨⟨[token], rfl, rfl⟩, forall_mem_singleton.mpr covers.1, forall_mem_singleton.mpr nofun,
        nofun, covers.1⟩
  · rintro ⟨_ | _, _, _⟩ _ <;> rfl

/-- Entering a level is a moment, and so is failing to. -/
theorem records_deepen (reader : Reader) : Records deepen deepen reader
    [if reader.depth < maxDepth then ⟨{ reader with depth := reader.depth + 1 }, none⟩
      else ⟨reader, some ⟨.tooDeep, reader.here⟩⟩] := by
  intro before
  change (if reader.depth < maxDepth then set { reader with depth := reader.depth + 1 }
    else throw ⟨.tooDeep, reader.here⟩ : Recording Unit) _ = _
  rw [deepen_eq]
  split <;> rfl

/-- One level deeper, one level less is enough. -/
theorem Ends.deepen (ends : Ends levels recording reading) :
    Ends (levels + 1) (do deepen; recording) (do deepen; reading) := by
  intro reader
  have run := deepen_eq reader
  have records := records_deepen reader
  split at run
  · next less =>
    rw [if_pos less] at records
    obtain ⟨later, records', orderly⟩ := ends { reader with depth := reader.depth + 1 }
    refine ⟨_, records.bind run records', fun covers => ?_⟩
    have entered : Orderly Reading.deepen reader
        [⟨{ reader with depth := reader.depth + 1 }, none⟩] := by
      refine ⟨?_, forall_mem_singleton.mpr less, forall_mem_singleton.mpr nofun,
        fun fault after failed => ?_, ?_⟩
      · rw [after_of_ok run]
        exact ⟨[], rfl, rfl⟩
      · cases run.symm.trans failed
      · rw [after_of_ok run]
        exact less
    exact entered.bind run (orderly ⟨less, by have := covers.2; simp only; omega⟩)
  · next full =>
    rw [if_neg full] at records
    refine ⟨_, records.fail run, fun covers => Orderly.fail ?_ run⟩
    refine ⟨?_, forall_mem_singleton.mpr covers.1, forall_mem_singleton.mpr fun _ _ _ => ?_,
      fun fault after failed => ?_, ?_⟩
    · rw [after_of_error run]
      exact ⟨[], rfl, rfl⟩
    · exact Nat.le_antisymm covers.1 (Nat.le_of_not_lt full)
    · cases run.symm.trans failed
      exact ⟨_, mem_singleton_self _, rfl⟩
    · rw [after_of_error run]
      exact covers.1

/-- Whatever depth a reading ends at, the one from before is returned to. -/
theorem Ends.restoringDepth (ends : Ends levels recording reading) :
    Returns levels (restoringDepth recording) (restoringDepth reading) := by
  refine ⟨fun reader => ?_, fun reader _ => by rw [after_restoringDepth]⟩
  obtain ⟨noted, records, orderly⟩ := ends reader
  exact ⟨_, records.restoringDepth, fun covers => (orderly covers).restoringDepth covers.1⟩

/-- A construct that is nested needs one level more. -/
theorem Returns.nested (returns : Returns levels recording reading) :
    Returns (levels + 1) (nested recording) (nested reading) :=
  returns.ends.deepen.restoringDepth

/-! ## Tokens and repetition -/

/-- The position of the reader is only looked at. -/
theorem returns_here : Returns levels here here := returns_get.bind_pure

/-- The next token is only looked at. -/
theorem returns_peek : Returns levels peek peek := by
  refine returns_get.bind fun reader => ?_
  cases reader.tokens with
  | nil => exact returns_throw nofun
  | cons token rest => exact .ite (returns_throw nofun) (returns_pure _)

/-- The next token is only tested. -/
theorem returns_check (condition : Token → Bool) :
    Returns levels (check condition) (check condition) := by
  refine returns_get.bind fun reader => ?_
  cases reader.tokens <;> exact returns_pure _

/-- A token is taken if it passes a test. -/
theorem returns_takeIf (condition : Token → Bool) :
    Returns levels (takeIf condition) (takeIf condition) := by
  refine returns_get.bind fun reader => ?_
  cases reader.tokens with
  | nil => exact returns_pure _
  | cons token rest => exact .ite (returns_drop.bind fun _ => returns_pure _) (returns_pure _)

/-- A token that is not expected is not reported as nesting too deeply. -/
theorem returns_failExpecting (expected : String) :
    Returns levels (failExpecting expected : Recording α) (failExpecting expected) := by
  refine returns_get.bind fun reader => returns_throw ?_
  unfold Reader.unexpected
  split
  · split <;> nofun
  · nofun

/-- The next token is taken. -/
theorem returns_take : Returns levels take take :=
  returns_peek.bind fun _ => returns_drop.bind fun _ => returns_pure _

/-- A token of the expected kind is taken. -/
theorem returns_expect (kind : Kind) : Returns levels (expect kind) (expect kind) :=
  returns_peek.bind fun _ => .ite returns_take (returns_failExpecting _)

/-- A token that may be left out is moved past. -/
theorem returns_skipIf (kind : Kind) : Returns levels (skipIf kind) (skipIf kind) :=
  (returns_takeIf _).bind_pure

section Items

variable (returns : Returns levels recording reading) (separator close : Kind)

include returns

/-- What a token announces is read after it. -/
theorem Returns.optional (kind : Kind) :
    Returns levels (optional kind recording) (optional kind reading) :=
  (returns_check _).bind fun _ =>
    .ite ((returns_expect kind).bind fun _ => returns.bind_pure) (returns_pure _)

/-- Items are read up to a token that ends them. -/
theorem Returns.manyUntil (ends : Kind → Bool) :
    Returns levels (manyUntil ends recording) (manyUntil ends reading) := by
  refine returns_get.bind fun reader => ?_
  induction reader.tokens.length with
  | zero => exact (returns_check _).bind fun _ => .ite (returns_pure _) returns.bind_pure
  | succ budget ih =>
    exact (returns_check _).bind fun _ => .ite (returns_pure _) (returns.bind fun _ => ih.bind_pure)

/-- Items are read with tokens between them. -/
theorem Returns.separated :
    Returns levels (separated separator close recording) (separated separator close reading) :=
  returns.bind fun _ => (((returns_expect separator).bind fun _ => returns).manyUntil _).bind_pure

/-- Items with tokens between them are read together with the token that ends them. -/
theorem Returns.closed :
    Returns levels (closed separator close recording) (closed separator close reading) :=
  (returns.separated separator close).bind fun _ => (returns_expect close).bind_pure

/-- The same where there may be no items at all. -/
theorem Returns.listed :
    Returns levels (listed separator close recording) (listed separator close reading) := by
  refine (returns_check _).bind fun empty => ?_
  dsimp only
  cases empty with
  | true => exact (returns_expect close).bind_pure
  | false => exact returns.closed separator close

end Items

end Reading

open Reading

/-! ## The grammar -/

namespace Grammar

variable {type : Recording TypeRef} {type' : Reading TypeRef} {expr : Recording Expr}
  {expr' : Reading Expr} {statement : Recording Stmt} {statement' : Reading Stmt} {levels : Nat}

/-- A name. -/
theorem returns_name : Returns levels name name := (returns_expect _).bind_pure

/-- The arguments of a type, which may be left out. -/
theorem returns_typeArguments (types : Returns levels type type') :
    Returns levels (typeArguments type) (typeArguments type') :=
  ((types.closed _ _).optional _).bind_pure

/-- A type with its arguments. -/
theorem returns_typeBody (types : Returns levels type type') :
    Returns levels (typeBody type) (typeBody type') :=
  returns_name.bind fun _ => (returns_typeArguments types).bind_pure

/-- An expression without operators, members and calls. -/
theorem returns_primary (types : Returns levels type type') (exprs : Returns levels expr expr') :
    Returns levels (primary type expr) (primary type' expr') := by
  refine returns_here.bind fun position => returns_peek.bind fun token => ?_
  split
  · exact returns_name.bind fun _ => (returns_typeArguments types).bind_pure
  · exact (returns_expect _).bind_pure
  · exact (returns_expect _).bind_pure
  · exact (returns_expect _).bind_pure
  · exact (returns_expect _).bind_pure
  · exact (returns_expect _).bind fun _ => exprs.bind fun _ => (returns_expect _).bind_pure
  · exact returns_failExpecting _

/-- The members and calls that follow an expression. -/
theorem returns_suffixes (exprs : Returns levels expr expr') (subject : Expr) :
    Returns levels (suffixes expr subject) (suffixes expr' subject) := by
  have one (subject : Expr) : Returns levels (suffix? expr subject) (suffix? expr' subject) := by
    refine (returns_check _).bind fun _ => .ite ?_ (returns_get.bind fun reader =>
      (returns_check _).bind fun _ => .ite ?_ (returns_pure _))
    · exact (returns_expect _).bind fun _ => returns_name.bind_pure
    · exact ((returns_expect _).bind fun _ => exprs.listed _ _).bind_pure
  refine returns_get.bind fun reader => ?_
  induction reader.tokens.length generalizing subject with
  | zero => exact returns_pure _
  | succ budget ih =>
    refine (one subject).bind fun longer => ?_
    cases longer with
    | none => exact returns_pure _
    | some longer => exact ih longer

/-- An expression without operators. -/
theorem returns_postfixed (types : Returns levels type type') (exprs : Returns levels expr expr') :
    Returns levels (postfixed type expr) (postfixed type' expr') :=
  (returns_primary types exprs).bind (returns_suffixes exprs)

/-- A variable with its initial value. -/
theorem returns_binding (exprs : Returns levels expr expr') :
    Returns levels (binding expr) (binding expr') :=
  (returns_expect _).bind fun _ => returns_name.bind fun _ =>
    (returns_expect _).bind fun _ => exprs.bind_pure

/-- A statement without the semicolon that may follow it. -/
theorem returns_statementBody (exprs : Returns levels expr expr')
    (stmts : Returns levels statement statement') :
    Returns levels (statementBody expr statement) (statementBody expr' statement') := by
  refine returns_here.bind fun position => returns_peek.bind fun token => ?_
  split
  · exact (returns_binding exprs).bind_pure
  · exact (returns_expect _).bind fun _ => exprs.bind fun _ => (returns_expect _).bind fun _ =>
      (stmts.manyUntil _).bind fun _ => ((stmts.manyUntil _).optional _).bind fun _ =>
        (returns_expect _).bind_pure
  · exact (returns_expect _).bind fun _ => exprs.bind fun _ => (returns_expect _).bind fun _ =>
      (stmts.manyUntil _).bind fun _ => (returns_expect _).bind_pure
  · exact (returns_expect _).bind fun _ => exprs.bind_pure
  · exact (returns_expect _).bind_pure
  · refine exprs.bind fun target => (returns_takeIf _).bind fun sign => ?_
    cases sign with
    | none => exact returns_pure _
    | some => exact exprs.bind_pure

/-- Whether the readings of a grammar with a number of levels are recorded by another one, and return
to their depth. What continues an expression ends at a greater depth. -/
structure Returns (levels : Nat) (recorder : Grammar Recording) (grammar : Grammar Reading) :
    Prop where
  type : Reading.Returns levels recorder.type grammar.type
  operand (least : Nat) : Reading.Returns levels (recorder.operand least) (grammar.operand least)
  binary (least : Nat) : Reading.Returns levels (recorder.binary least) (grammar.binary least)
  chain (least : Nat) (left : Expr) : Ends levels (recorder.chain least left) (grammar.chain least left)
  statement : Reading.Returns levels recorder.statement grammar.statement

section Levels

variable {recorder : Grammar Recording} {inner : Grammar Reading}
  (returns : Returns levels recorder inner)

include returns

/-- The operators and operands that continue an expression. -/
theorem Returns.chainBody (least : Nat) (left : Expr) :
    Ends (levels + 1) (chainBody recorder least left) (chainBody inner least left) := by
  have operator : Reading.Returns (levels + 1) (operator? least) (operator? least) := by
    refine returns_peek.bind fun token => ?_
    cases BinaryOp.ofKind? token.kind with
    | none => exact returns_pure _
    | some op => exact .ite returns_take.bind_pure (returns_pure _)
  have checked (operator : Token) :
      Reading.Returns (levels + 1) (checkOperand operator) (checkOperand operator) :=
    returns_peek.bind fun token => .ite (returns_pure _) (returns_throw nofun)
  refine operator.bind_ends fun found => ?_
  cases found with
  | none => exact (returns_pure _).ends
  | some found => exact (checked _).bind_ends fun _ =>
      ((returns.operand _).bind_ends fun right => returns.chain _ _).deepen

/-- A grammar is recorded at one depth if it is at the next. -/
theorem Returns.around : Returns (levels + 1) recorder.around inner.around where
  type := (returns_typeBody returns.type).nested
  operand least := (returns.binary least).nested
  binary least := by
    have operands := returns_postfixed (returns_typeBody returns.type).nested (returns.binary 1).nested
    exact (operands.bind_ends fun _ => returns.chainBody least _).restoringDepth
  chain least left := returns.chainBody least left
  statement := (returns_statementBody (returns.operand 1) returns.statement).nested.bind fun _ =>
    (returns_skipIf _).bind_pure

end Levels

/-- The readings of the grammar are recorded and return to their depth, at every level. -/
theorem returns_ofLevels (levels : Nat) : Returns levels (ofLevels levels) (ofLevels levels) := by
  induction levels with
  | zero =>
    -- without levels there are no depths
    have none {depth : Nat} : ¬Covers 0 depth := fun covers => absurd covers.2 (Nat.not_lt.mpr covers.1)
    have returns {α : Type} : Reading.Returns 0 (do throw ⟨.tooDeep, ← here⟩ : Recording α)
        (do throw ⟨.tooDeep, ← here⟩) :=
      ⟨fun reader => ⟨[⟨reader, some ⟨.tooDeep, reader.here⟩⟩], fun _ => rfl,
        fun covers => absurd covers none⟩, fun _ covers => absurd covers none⟩
    exact ⟨returns, fun _ => returns, fun _ => returns, fun _ _ => returns.ends, returns⟩
  | succ levels ih => exact ih.around

section Declarations

variable {recorder : Grammar Recording} {grammar : Grammar Reading}
  (returns : Returns levels recorder grammar)

include returns

/-- A method with its parameters and statements. -/
theorem returns_method : Reading.Returns levels recorder.method grammar.method := by
  have param : Reading.Returns levels recorder.param grammar.param :=
    returns_name.bind fun _ => (returns_expect _).bind fun _ => returns.type.bind_pure
  exact (returns_expect _).bind fun _ => returns_name.bind fun _ =>
    ((param.listed _ _).optional _).bind fun _ => (returns.type.optional _).bind fun _ =>
      (returns_expect _).bind fun _ => (returns.statement.manyUntil _).bind fun _ =>
        (returns_expect _).bind_pure

/-- A field or a method. -/
theorem returns_member : Reading.Returns levels recorder.member grammar.member := by
  have last (member : Member) : Reading.Returns levels
      (do skipIf (.symbol .semicolon); return member) (do skipIf (.symbol .semicolon); return member) :=
    (returns_skipIf _).bind_pure
  refine returns_peek.bind fun token => ?_
  dsimp only
  split
  · exact (returns_binding (returns.operand 1)).bind_pure.bind last
  · exact (returns_method returns).bind_pure.bind last
  · exact Returns.bind (returns_failExpecting _) last

/-- A class with its members. -/
theorem returns_classDecl : Reading.Returns levels recorder.classDecl grammar.classDecl := by
  have initBlock : Reading.Returns levels recorder.initBlock grammar.initBlock :=
    (returns_expect _).bind fun _ => (returns.statement.manyUntil _).bind fun _ =>
      (returns_expect _).bind fun _ => (returns_skipIf _).bind_pure
  exact (returns_expect _).bind fun _ => returns_name.bind fun _ =>
    (returns_name.bind_pure.optional _).bind fun _ => (returns_expect _).bind fun _ =>
      (initBlock.optional _).bind fun _ => ((returns_member returns).manyUntil _).bind fun _ =>
        (returns_expect _).bind fun _ => (returns_skipIf _).bind_pure

end Declarations

/-! ## Every reading -/

/-- A reading, written for any monad with its steps, is the same with a record of its moments. From a
reader on it takes tokens from the front, at least one if it succeeds, within the limit of depths, and
returns to its depth. -/
structure Behaves {α : Type} (reading : ∀ (m : Type → Type) [Monad m] [MonadStateOf Reader m]
    [MonadExceptOf Fault m] [MonadFinally m], m α) (reader : Reader) : Prop where
  /-- The record can be left out. -/
  erases : (reading Recording).erase = reading Reading
  /-- The moments that are recorded are those of an orderly run. -/
  orderly : Orderly (reading Reading) reader ((reading Recording).moments reader)
  /-- A token is taken if reading succeeds. -/
  shorter : ∀ value after, reading Reading reader = .ok value after →
    after.tokens.length < reader.tokens.length
  /-- The depth is that from before, whether or not reading succeeds. -/
  depth : ((reading Reading).after reader).depth = reader.depth

/-- A recorded reading that takes tokens behaves in a grammar with enough levels. -/
theorem behaves_of_returns {α : Type} {reading : ∀ (m : Type → Type) [Monad m]
      [MonadStateOf Reader m] [MonadExceptOf Fault m] [MonadFinally m], m α} {reader : Reader}
    (covers : Covers levels reader.depth)
    (returns : Reading.Returns levels (reading Recording) (reading Reading))
    (shortens : (reading Reading).Shortens) : Behaves reading reader := by
  obtain ⟨noted, records, orderly⟩ := returns.ends reader
  refine ⟨funext fun reader => ?_, ?_, fun _ _ => shortens, returns.depth reader covers⟩
  · obtain ⟨_, records, _⟩ := returns.ends reader
    exact records.erase_eq
  · rw [records.moments_eq]
    exact orderly covers

/-- Items are read in a loop: each of them takes a token, so the loop needs no bound to end. -/
structure Repeats {α : Type} (item : Reading α) : Prop where
  /-- A turn of the loop takes a token. -/
  shortens : item.Shortens
  /-- The loop is left where a token that ends it comes next, or where an item fails. -/
  loop : ∀ ends, manyUntil ends item = do
    if ← check (fun token => ends token.kind) then return []
    else
      let first ← item
      return first :: (← manyUntil ends item)

/-- The loop needs no bound if its items take tokens. -/
theorem repeats_of_shortens {α : Type} {item : Reading α} (shortens : item.Shortens) : Repeats item :=
  ⟨shortens, fun _ => manyUntil_eq shortens⟩

/-- Members and calls are read in a loop in the same way. -/
structure RepeatsSuffixes (expr : Reading Expr) : Prop where
  /-- A turn of the loop takes a token. -/
  shortens : ∀ subject reader longer after, suffix? expr subject reader = .ok (some longer) after →
    after.tokens.length < reader.tokens.length
  /-- The loop is left where neither a member nor a call follows, or where one fails. -/
  loop : ∀ subject, suffixes expr subject = do
    match ← suffix? expr subject with
    | some longer => suffixes expr longer
    | none => return subject

/-- Every construct of the grammar is read in an orderly way from every reader whose depth is within
the limit, by a grammar with enough levels for it. All its loops end because every turn takes a token,
not because of a bound. So every list of tokens is read to its end or to a fault, and a list without an
end of the text to a fault. -/
theorem readings_behave (levels : Nat) :
    (∀ reader : Reader, reader.depth ≤ maxDepth → maxDepth < reader.depth + levels →
      Behaves (fun _ => (ofLevels levels).classDecl) reader ∧
      Behaves (fun _ => (ofLevels levels).member) reader ∧
      Behaves (fun _ => (ofLevels levels).type) reader ∧
      Behaves (fun _ => (ofLevels levels).statement) reader ∧
      Behaves (fun _ => (ofLevels levels).expr) reader ∧
      (∀ least, Behaves (fun _ => (ofLevels levels).binary least) reader) ∧
      Behaves (fun _ => postfixed (ofLevels levels).type (ofLevels levels).expr) reader ∧
      Behaves (fun _ => primary (ofLevels levels).type (ofLevels levels).expr) reader) ∧
    (Repeats (ofLevels levels).classDecl ∧ Repeats (ofLevels levels).member ∧
      Repeats (ofLevels levels).statement ∧
      (∀ separator, Repeats (do let _ ← expect separator; (ofLevels levels).type) ∧
        Repeats (do let _ ← expect separator; (ofLevels levels).expr) ∧
        Repeats (do let _ ← expect separator; (ofLevels levels).param)) ∧
      RepeatsSuffixes (ofLevels levels).expr) ∧
    ∀ tokens, Behaves (fun _ => outermost.program) (Reader.ofTokens tokens) ∧
      ((∀ token ∈ tokens, token.kind ≠ .endOfFile) →
        ∃ fault, Program.ofTokens tokens = .error fault) := by
  have returns := returns_ofLevels levels
  have takes := takesUp_ofLevels levels
  have exprs := (takes.operand 1).takesUp
  have types : ((ofLevels levels).type : Reading _).Advances := by
    cases levels with
    | zero => exact advances_tooDeep
    | succ levels => exact (advances_name.bind fun _ =>
        (takesUp_typeArguments (takesUp_ofLevels levels).type).bind_pure).nested
  refine ⟨fun reader within enough => ?_, ?_, fun tokens => ⟨?_, fun endless => ?_⟩⟩
  · have covers : Covers levels reader.depth := ⟨within, enough⟩
    exact ⟨behaves_of_returns covers (returns_classDecl returns) (advances_classDecl takes).length_lt,
      behaves_of_returns covers (returns_member returns) (advances_member takes).length_lt,
      behaves_of_returns covers returns.type types.length_lt,
      behaves_of_returns covers returns.statement takes.statement.length_lt,
      behaves_of_returns covers (returns.operand 1) (takes.operand 1).length_lt,
      fun least => behaves_of_returns covers (returns.binary least) (takes.binary least).length_lt,
      behaves_of_returns covers (returns_postfixed returns.type (returns.operand 1))
        (advances_postfixed takes.type (takes.operand 1).takesUp).length_lt,
      behaves_of_returns covers (returns_primary returns.type (returns.operand 1))
        (advances_primary takes.type (takes.operand 1).takesUp).length_lt⟩
  · refine ⟨repeats_of_shortens (advances_classDecl takes).length_lt,
      repeats_of_shortens (advances_member takes).length_lt,
      repeats_of_shortens takes.statement.length_lt, fun separator => ?_,
      fun _ _ _ _ => length_lt_of_suffix? exprs, suffixes_eq exprs⟩
    have behind {α : Type} {item : Reading α} (takes : item.TakesUp) :
        Repeats (do let _ ← expect separator; item) :=
      repeats_of_shortens (Shortens.bind (shortens_expect separator) fun _ => takes)
    exact ⟨behind takes.type, behind exprs, behind (advances_name.bind fun _ =>
      (takesUp_expect rfl).bind fun _ => takes.type.bind_pure).takesUp⟩
  · have program : Reading.Returns (maxDepth + 1) outermost.program outermost.program :=
      ((returns_classDecl (returns_ofLevels _)).manyUntil _).bind fun _ => (returns_expect _).bind_pure
    refine behaves_of_returns ⟨Nat.zero_le _, Nat.lt_add_left _ (Nat.lt_succ_self _)⟩ program ?_
    intro reader value after run
    obtain ⟨_, between, run, run'⟩ := bind_eq_ok.mp run
    have classes := (advances_classDecl (takesUp_ofLevels (maxDepth + 1))).manyUntil (· = .endOfFile)
    have ends := Shortens.bind (shortens_expect .endOfFile) (fun _ => takesUp_pure _) run'
    exact Nat.lt_of_lt_of_le ends (classes.length_le run)
  · cases read : Program.ofTokens tokens with
    | error fault => exact ⟨fault, rfl⟩
    | ok program =>
      obtain ⟨taken, ending, rest, rfl, isEnd, _⟩ := Program.exists_tokens_eq_of_ofTokens read
      exact absurd isEnd (endless ending (by simp))

/-- A statement is read in an orderly way one level below the limit. -/
theorem readings_behave_deep :
    Behaves (fun _ => outermost.statement) ⟨Token.scan "return (1 + 2)", Position.start, 63⟩ :=
  ((readings_behave (maxDepth + 1)).1 _ (by decide) (by decide)).2.2.2.1

end Grammar

end ClassLang
