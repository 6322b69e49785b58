import Mathlib.Tactic.Tauto
import ClassLang.Lowering.Frame

/-! # What names refer to

A name refers to the innermost variable in scope or else to the nearest field. The references in
statements depend on what their free names refer to around them, and a variable that they refer to is
declared around them or in them. -/

namespace ClassLang

open List

variable {position : Position} {name : String} {block : List Stmt} {occurrence : Occurrence}
  {stmt : Stmt}

/-! ## Occurrences in expressions -/

/-- An occurrence of a name that stands for a variable or a field. -/
structure Occurrence where
  /-- Where the name stands. -/
  position : Position
  name : String
  /-- Whether it is a member of the current object, which is never a variable. -/
  ofSelf : Bool
  deriving DecidableEq, Repr

mutual

/-- The occurrences of names in an expression. What is called by its name alone is neither a variable
nor a field, and neither is a member of any object but the current one. -/
def Expr.occurrences : Expr → List Occurrence
  | .ident name _ position => [⟨position, name, false⟩]
  | .binary _ left right _ => left.occurrences ++ right.occurrences
  | .member (.self _) name position => [⟨position, name, true⟩]
  | .member target _ _ => target.occurrences
  | .call (.ident _ _ _) arguments _ => listOccurrences arguments
  | .call (.member receiver _ _) arguments _ =>
    receiver.occurrences ++ listOccurrences arguments
  | .call callee arguments _ => callee.occurrences ++ listOccurrences arguments
  | _ => []

/-- The occurrences of names in expressions. -/
def Expr.listOccurrences : List Expr → List Occurrence
  | [] => []
  | expr :: rest => expr.occurrences ++ listOccurrences rest

end

/-! ## The parts of a statement -/

namespace Stmt

/-- The expressions of a statement, outside of the blocks in it. -/
def exprs : Stmt → List Expr
  | .declare _ init _ => [init]
  | .assign target value _ => [target, value]
  | .branch test _ _ _ => [test]
  | .loop test _ _ => [test]
  | .ret value _ => [value]
  | .leave _ => []
  | .eval value _ => [value]

/-- The occurrences of names in a statement, outside of the blocks in it. -/
def occurrences (stmt : Stmt) : List Occurrence := stmt.exprs.flatMap Expr.occurrences

/-- The blocks in a statement, each of which has a scope of its own. -/
def blocks : Stmt → List (List Stmt)
  | .branch _ body alternative _ => body :: alternative.toList
  | .loop _ body _ => [body]
  | _ => []

/-- The variable that a statement declares for those that follow, and where. -/
def declared? : Stmt → Option (String × Position)
  | .declare name _ position => some (name, position)
  | _ => none

mutual

/-- What holds of blocks by induction holds of the blocks in a statement. -/
theorem blocks_induction {motive : List Stmt → Prop} (nil : motive [])
    (cons : ∀ stmt rest, (∀ block ∈ stmt.blocks, motive block) → motive rest →
      motive (stmt :: rest)) (stmt : Stmt) : ∀ block ∈ stmt.blocks, motive block := by
  cases stmt with
  | branch test body alternative =>
    cases alternative with
    | none => exact forall_mem_singleton.mpr (block_induction nil cons body)
    | some alternative =>
      exact forall_mem_cons.mpr ⟨block_induction nil cons body,
        forall_mem_singleton.mpr (block_induction nil cons alternative)⟩
  | loop test body =>
    exact forall_mem_singleton.mpr (block_induction nil cons body)
  | _ => exact forall_mem_nil _

/-- What holds of blocks, if it holds of a block whenever it holds of the blocks in its first
statement and of the rest. -/
theorem block_induction {motive : List Stmt → Prop} (nil : motive [])
    (cons : ∀ stmt rest, (∀ block ∈ stmt.blocks, motive block) → motive rest →
      motive (stmt :: rest)) (block : List Stmt) : motive block := by
  cases block with
  | nil => exact nil
  | cons stmt rest =>
    exact cons stmt rest (blocks_induction nil cons stmt) (block_induction nil cons rest)

end

end Stmt

/-! ## References -/

/-- What a name refers to. -/
inductive Referent where
  /-- The variable or parameter declared at a position. -/
  | variable (position : Position)
  /-- The field of its name in a class. -/
  | field (owner : String)
  deriving DecidableEq, Repr

/-- An occurrence of a name with what it refers to. -/
structure Reference where
  /-- Where the name stands. -/
  position : Position
  /-- What it refers to. -/
  referent? : Option Referent
  deriving DecidableEq, Repr

/-- Declare variables in order. -/
def Locals.declareAll (locals : Locals Position) (declared : List (String × Position)) :
    Locals Position :=
  declared.foldl (fun locals entry => locals.declare entry.1 entry.2) locals

section Resolve

variable (owner? : String → Option String) (locals : Locals Position)

/-- What an occurrence refers to, given the variables in scope and the owners of fields. -/
def Occurrence.referent? (occurrence : Occurrence) : Option Referent :=
  if occurrence.ofSelf then (owner? occurrence.name).map .field
  else
    match locals.lookup occurrence.name with
    | some found => some (.variable found.info)
    | none => (owner? occurrence.name).map .field

/-- An occurrence with what it refers to. -/
def Occurrence.reference (occurrence : Occurrence) : Reference :=
  ⟨occurrence.position, occurrence.referent? owner? locals⟩

namespace Stmt

mutual

/-- The references in a statement. The blocks in it have scopes of their own. -/
def references (locals : Locals Position) : Stmt → List Reference
  | .branch test body none _ =>
    test.occurrences.map (Occurrence.reference owner? locals) ++ blockReferences locals.enter body
  | .branch test body (some alternative) _ =>
    test.occurrences.map (Occurrence.reference owner? locals) ++
      blockReferences locals.enter body ++ blockReferences locals.enter alternative
  | .loop test body _ =>
    test.occurrences.map (Occurrence.reference owner? locals) ++ blockReferences locals.enter body
  | stmt => stmt.occurrences.map (Occurrence.reference owner? locals)

/-- The references in statements, each of which is in the scope of those before it. -/
def blockReferences (locals : Locals Position) : List Stmt → List Reference
  | [] => []
  | stmt :: rest =>
    stmt.references locals ++ blockReferences (locals.declareAll stmt.declared?.toList) rest

end

/-- The references in a statement are those in its own expressions and those in its blocks. -/
theorem references_eq (stmt : Stmt) :
    stmt.references owner? locals =
      stmt.occurrences.map (Occurrence.reference owner? locals) ++
        stmt.blocks.flatMap (blockReferences owner? locals.enter) := by
  cases stmt with
  | branch test body alternative =>
    cases alternative <;> simp [references, occurrences, exprs, blocks]
  | loop test body =>
    simp [references, occurrences, exprs, blocks]
  | _ => simp [references, blocks]

end Stmt

end Resolve

/-! ## Free names -/

/-- Whether a name stands by itself among occurrences. -/
def Occurrence.anyPlain (name : String) (occurrences : List Occurrence) : Bool :=
  occurrences.any fun occurrence => occurrence.name = name && !occurrence.ofSelf

namespace Stmt

mutual

/-- Whether a name is used in a statement without being declared in it. -/
def usesFree (name : String) : Stmt → Bool
  | .branch test body none _ =>
    Occurrence.anyPlain name test.occurrences || blockUsesFree name body
  | .branch test body (some alternative) _ =>
    Occurrence.anyPlain name test.occurrences || blockUsesFree name body ||
      blockUsesFree name alternative
  | .loop test body _ => Occurrence.anyPlain name test.occurrences || blockUsesFree name body
  | stmt => Occurrence.anyPlain name stmt.occurrences

/-- Whether a name is used in statements without being declared in them. -/
def blockUsesFree (name : String) : List Stmt → Bool
  | [] => false
  | stmt :: rest =>
    stmt.usesFree name ||
      (stmt.declared?.all (fun declared => declared.1 ≠ name) && blockUsesFree name rest)

end

/-- A name is used in a statement by its own expressions or in its blocks. -/
theorem usesFree_eq (name : String) (stmt : Stmt) :
    stmt.usesFree name =
      (Occurrence.anyPlain name stmt.occurrences || stmt.blocks.any (blockUsesFree name)) := by
  cases stmt with
  | branch test body alternative =>
    cases alternative <;>
      simp [usesFree, occurrences, exprs, blocks, Bool.or_assoc]
  | loop test body => simp [usesFree, occurrences, exprs, blocks]
  | _ => simp [usesFree, blocks]

/-- The variables declared at the top of statements. -/
def declaredOnTop (block : List Stmt) : List (String × Position) :=
  block.filterMap declared?

end Stmt

/-! ## Variables in scope -/

namespace Locals

variable {locals : Locals Position} {declared : List (String × Position)} {ι : Type}

/-- Where the variable of a name is declared. -/
def declaredAt? (locals : Locals Position) (name : String) : Option Position :=
  (locals.lookup name).map Local.info

theorem scopes_enter_ne_nil (locals : Locals Position) : locals.enter.scopes ≠ [] :=
  cons_ne_nil _ _

theorem lookup_declare_self {locals : Locals ι} (nonempty : locals.scopes ≠ []) (name : String)
    (info : ι) : (locals.declare name info).lookup name = some ⟨locals.nextSlot, info⟩ := by
  obtain ⟨scope, outer, scopes⟩ := exists_cons_of_ne_nil nonempty
  simp [lookup, declare, scopes]

/-- A declaration leaves other names as they are. -/
theorem lookup_declare_of_ne (locals : Locals ι) {other : String} (different : other ≠ name)
    (info : ι) : (locals.declare name info).lookup other = locals.lookup other := by
  have distinct : (other == name) = false := beq_false_of_ne different
  unfold lookup declare
  dsimp only
  split
  · next none => rw [none]
  · next scope outer some => rw [some, findSome?_cons, findSome?_cons,
      lookup_cons, distinct]

theorem declaredAt?_declare_self (nonempty : locals.scopes ≠ []) (name : String)
    (position : Position) : (locals.declare name position).declaredAt? name = some position := by
  rw [declaredAt?, lookup_declare_self nonempty]
  rfl

theorem declaredAt?_declare_of_ne (locals : Locals Position) {other : String}
    (different : other ≠ name) (position : Position) :
    (locals.declare name position).declaredAt? other = locals.declaredAt? other := by
  rw [declaredAt?, declaredAt?, lookup_declare_of_ne locals different]

theorem scopes_declare_ne_nil {locals : Locals ι} (nonempty : locals.scopes ≠ []) (name : String)
    (info : ι) : (locals.declare name info).scopes ≠ [] := by
  obtain ⟨scope, outer, scopes⟩ := exists_cons_of_ne_nil nonempty
  simp [declare, scopes]

theorem declareAll_append (locals : Locals Position) (one two : List (String × Position)) :
    locals.declareAll (one ++ two) = (locals.declareAll one).declareAll two :=
  foldl_append

theorem scopes_declareAll_ne_nil (nonempty : locals.scopes ≠ [])
    (declared : List (String × Position)) : (locals.declareAll declared).scopes ≠ [] := by
  induction declared generalizing locals with
  | nil => exact nonempty
  | cons entry rest ih => exact ih (scopes_declare_ne_nil nonempty _ _)

/-- Declarations leave the names that they do not declare as they are. -/
theorem declaredAt?_declareAll_of_notMem (locals : Locals Position)
    (absent : ∀ entry ∈ declared, entry.1 ≠ name) :
    (locals.declareAll declared).declaredAt? name = locals.declaredAt? name := by
  induction declared generalizing locals with
  | nil => rfl
  | cons entry rest ih =>
    obtain ⟨different, absentLater⟩ := forall_mem_cons.mp absent
    refine (ih (locals.declare entry.1 entry.2) absentLater).trans ?_
    exact declaredAt?_declare_of_ne locals different.symm entry.2

/-- A name refers to one of its declarations after them. -/
theorem declaredAt?_declareAll_of_mem (nonempty : locals.scopes ≠ [])
    (mem : (name, position) ∈ declared) :
    ∃ latest, (locals.declareAll declared).declaredAt? name = some latest ∧
      (name, latest) ∈ declared := by
  induction declared generalizing locals position with
  | nil => cases mem
  | cons entry rest ih =>
    by_cases again : ∃ later, (name, later) ∈ rest
    · obtain ⟨later, memRest⟩ := again
      obtain ⟨latest, found, memLatest⟩ := ih (scopes_declare_ne_nil nonempty _ _) memRest
      exact ⟨latest, found, mem_cons_of_mem _ memLatest⟩
    · -- no later declaration has the name, so the first one does
      have first : (name, position) = entry :=
        (mem_cons.mp mem).resolve_right fun memRest => again ⟨position, memRest⟩
      subst first
      refine ⟨position, ?_, mem⟩
      refine (declaredAt?_declareAll_of_notMem (locals.declare name position) ?_).trans
        (declaredAt?_declare_self nonempty name position)
      rintro ⟨other, later⟩ memRest rfl
      exact again ⟨later, memRest⟩

/-- What a name refers to after declarations is one of them, or what it referred to before. -/
theorem declaredAt?_of_declareAll
    (found : (locals.declareAll declared).declaredAt? name = some position) :
    locals.declaredAt? name = some position ∨ (name, position) ∈ declared := by
  induction declared generalizing locals with
  | nil => exact .inl found
  | cons entry rest ih =>
    rcases ih found with before | later
    · by_cases equal : name = entry.1
      · by_cases nonempty : locals.scopes = []
        · simp [declaredAt?, lookup, declare, nonempty] at before
        · rw [equal, declaredAt?_declare_self nonempty] at before
          cases before
          exact .inr (mem_cons.mpr (.inl (by rw [equal])))
      · rw [declaredAt?_declare_of_ne locals equal] at before
        exact .inl before
    · exact .inr (mem_cons_of_mem _ later)

end Locals

/-- What is declared at the top of statements is declared by the first or at the top of the rest. -/
theorem Stmt.declaredOnTop_cons (stmt : Stmt) (rest : List Stmt) :
    declaredOnTop (stmt :: rest) = stmt.declared?.toList ++ declaredOnTop rest := by
  unfold declaredOnTop
  rw [filterMap_cons]
  cases stmt.declared? <;> rfl

/-- A name declared at the top of statements is declared by the first or at the top of the rest. -/
@[simp] theorem Stmt.mem_declaredOnTop_cons {declared : String × Position} {rest : List Stmt} :
    declared ∈ declaredOnTop (stmt :: rest) ↔
      stmt.declared? = some declared ∨ declared ∈ declaredOnTop rest := by
  rw [declaredOnTop_cons, mem_append, Option.mem_toList]

/-! ## References that depend on free names only -/

section Resolve

variable {owner? : String → Option String} {first second : Locals Position}

namespace Occurrence

/-- What an occurrence refers to depends on its name only. -/
theorem referent?_congr (same : occurrence.ofSelf = false →
      first.declaredAt? occurrence.name = second.declaredAt? occurrence.name) :
    occurrence.referent? owner? first = occurrence.referent? owner? second := by
  unfold referent?
  split
  · rfl
  · next plain =>
      have same := same (Bool.eq_false_iff.mpr plain)
      unfold Locals.declaredAt? at same
      cases one : first.lookup occurrence.name <;> cases two : second.lookup occurrence.name <;>
        simp_all

/-- What occurrences refer to depends on the names that stand by themselves. -/
theorem map_reference_congr {occurrences : List Occurrence}
    (same : ∀ name, anyPlain name occurrences = true →
      first.declaredAt? name = second.declaredAt? name) :
    occurrences.map (reference owner? first) = occurrences.map (reference owner? second) := by
  refine map_congr_left fun occurrence mem => ?_
  unfold reference
  rw [referent?_congr]
  intro plain
  refine same occurrence.name (any_eq_true.mpr ⟨occurrence, mem, ?_⟩)
  rw [plain]
  simp

end Occurrence

namespace Stmt

@[simp] theorem blockReferences_singleton (stmt : Stmt) (locals : Locals Position) :
    blockReferences owner? locals [stmt] = stmt.references owner? locals := by
  rw [blockReferences, blockReferences, append_nil]

@[simp] theorem blockUsesFree_singleton (stmt : Stmt) (name : String) :
    blockUsesFree name [stmt] = stmt.usesFree name := by
  rw [blockUsesFree, blockUsesFree, Bool.and_false, Bool.or_false]

/-- The references in two blocks, one after the other. -/
theorem blockReferences_append (one two : List Stmt) (locals : Locals Position) :
    blockReferences owner? locals (one ++ two) =
      blockReferences owner? locals one ++
        blockReferences owner? (locals.declareAll (declaredOnTop one)) two := by
  induction one generalizing locals with
  | nil => rfl
  | cons stmt rest ih =>
    rw [cons_append, blockReferences, blockReferences, ih, append_assoc,
      declaredOnTop_cons, Locals.declareAll_append]

/-- A name used in the second of two blocks is used in both together, unless the first declares
it. -/
theorem blockUsesFree_append (one two : List Stmt) :
    blockUsesFree name (one ++ two) = true ↔
      blockUsesFree name one = true ∨
        (∀ declared ∈ declaredOnTop one, declared.1 ≠ name) ∧ blockUsesFree name two = true := by
  induction one with
  | nil => simp [blockUsesFree, declaredOnTop]
  | cons stmt rest ih =>
    rw [cons_append, blockUsesFree, blockUsesFree]
    simp only [Bool.or_eq_true, Bool.and_eq_true, ih, Option.all_eq_true, decide_eq_true_eq,
      mem_declaredOnTop_cons, or_imp, forall_and]
    tauto

end Stmt

end Resolve

/-! ## Sites -/

namespace Stmt

mutual

/-- The positions of the declarations and occurrences of names in a statement. -/
def sites : Stmt → List Position
  | .branch test body none _ =>
    test.occurrences.map Occurrence.position ++ blockSites body
  | .branch test body (some alternative) _ =>
    test.occurrences.map Occurrence.position ++ blockSites body ++ blockSites alternative
  | .loop test body _ => test.occurrences.map Occurrence.position ++ blockSites body
  | stmt => stmt.declared?.toList.map Prod.snd ++ stmt.occurrences.map Occurrence.position

/-- The positions of the declarations and occurrences of names in statements. -/
def blockSites : List Stmt → List Position
  | [] => []
  | stmt :: rest => stmt.sites ++ blockSites rest

end

/-- The sites of a statement are its declaration, those in its expressions and those in its
blocks. -/
theorem sites_eq (stmt : Stmt) :
    stmt.sites =
      stmt.declared?.toList.map Prod.snd ++ stmt.occurrences.map Occurrence.position ++
        stmt.blocks.flatMap blockSites := by
  cases stmt with
  | branch test body alternative =>
    cases alternative <;>
      simp [sites, declared?, occurrences, exprs, blocks]
  | loop test body =>
    simp [sites, declared?, occurrences, exprs, blocks]
  | _ => simp [sites, blocks]

@[simp] theorem blockSites_singleton (stmt : Stmt) : blockSites [stmt] = stmt.sites := by
  rw [blockSites, blockSites, append_nil]

/-- The sites of two blocks, one after the other. -/
theorem blockSites_append (one two : List Stmt) :
    blockSites (one ++ two) = blockSites one ++ blockSites two := by
  induction one with
  | nil => rfl
  | cons stmt rest ih =>
    rw [cons_append, blockSites, blockSites, ih, append_assoc]

/-- What is declared at the top of statements has its site in them. -/
theorem mem_blockSites_of_declaredOnTop {declared : String × Position}
    (mem : declared ∈ declaredOnTop block) : declared.2 ∈ blockSites block := by
  induction block with
  | nil => cases mem
  | cons stmt rest ih =>
    rw [blockSites, mem_append]
    rcases mem_declaredOnTop_cons.mp mem with declares | later
    · left
      simp [sites_eq, declares]
    · exact .inr (ih later)

end Stmt

section Resolve

variable {owner? : String → Option String} {locals : Locals Position} {reference : Reference}

namespace Stmt

/-- A reference in statements has its site in them. -/
theorem mem_blockSites_of_reference (mem : reference ∈ blockReferences owner? locals block) :
    reference.position ∈ blockSites block := by
  induction block using block_induction generalizing locals with
  | nil => cases mem
  | cons stmt rest inner later =>
    rw [blockReferences, references_eq] at mem
    rw [blockSites, sites_eq]
    simp only [mem_append, mem_map, mem_flatMap] at mem ⊢
    rcases mem with (⟨occurrence, mem, rfl⟩ | ⟨block, memBlock, mem⟩) | mem
    · exact .inl (.inl (.inr ⟨occurrence, mem, rfl⟩))
    · exact .inl (.inr ⟨block, memBlock, inner block memBlock mem⟩)
    · exact .inr (later mem)

/-- A reference in a statement has its site in it. -/
theorem mem_sites_of_reference (mem : reference ∈ stmt.references owner? locals) :
    reference.position ∈ stmt.sites := by
  rw [← blockReferences_singleton] at mem
  rw [← blockSites_singleton]
  exact mem_blockSites_of_reference mem

end Stmt

/-- A reference to a variable goes to the one that is in scope. -/
theorem Occurrence.exists_declaredAt?
    (refers : occurrence.referent? owner? locals = some (.variable position)) :
    locals.declaredAt? occurrence.name = some position := by
  unfold Occurrence.referent? at refers
  split at refers
  · simp at refers
  · split at refers
    · next found lookup =>
        cases refers
        rw [Locals.declaredAt?, lookup, Option.map_some]
    · simp at refers

/-- A name that stands by itself refers to the variable in scope. -/
theorem Occurrence.referent?_of_plain
    (plain : (occurrence.name = name && !occurrence.ofSelf) = true)
    (declared : locals.declaredAt? name = some position) :
    occurrence.referent? owner? locals = some (.variable position) := by
  rw [Bool.and_eq_true, decide_eq_true_eq, Bool.not_eq_true'] at plain
  obtain ⟨rfl, plain⟩ := plain
  obtain ⟨found, lookup, rfl⟩ := Option.map_eq_some_iff.mp declared
  rw [Occurrence.referent?, plain, lookup]
  rfl

namespace Stmt

/-- A variable in scope after a statement was in scope before or is declared by the statement. -/
theorem declaredAt?_of_declared
    (found : (locals.declareAll stmt.declared?.toList).declaredAt? name = some position) :
    locals.declaredAt? name = some position ∨ position ∈ stmt.sites := by
  refine (Locals.declaredAt?_of_declareAll found).imp id fun mem => ?_
  rw [sites_eq, append_assoc]
  exact mem_append_left _ (mem_map.mpr ⟨_, mem, rfl⟩)

/-- The variables that statements refer to are declared around them or in them. -/
theorem declared_of_reference (mem : reference ∈ blockReferences owner? locals block)
    (refers : reference.referent? = some (.variable position)) :
    (∃ name, locals.declaredAt? name = some position) ∨ position ∈ blockSites block := by
  induction block using block_induction generalizing locals with
  | nil => cases mem
  | cons stmt rest inner later =>
    rw [blockReferences, references_eq, mem_append, mem_append, mem_map, mem_flatMap] at mem
    rw [blockSites, mem_append]
    rcases mem with (⟨occurrence, _, rfl⟩ | ⟨block, memBlock, mem⟩) | mem
    · exact .inl ⟨occurrence.name, Occurrence.exists_declaredAt? refers⟩
    · refine (inner block memBlock mem).imp id fun site => .inl ?_
      rw [sites_eq]
      exact mem_append_right _ (mem_flatMap.mpr ⟨block, memBlock, site⟩)
    · rcases later mem with ⟨name, found⟩ | site
      · rcases declaredAt?_of_declared found with found | site
        · exact .inl ⟨name, found⟩
        · exact .inr (.inl site)
      · exact .inr (.inr site)

/-- A free use of a name in statements refers to the variable around them. -/
theorem exists_reference_of_usesFree (owner? : String → Option String)
    (used : blockUsesFree name block = true) (declared : locals.declaredAt? name = some position) :
    ∃ reference ∈ blockReferences owner? locals block,
      reference.referent? = some (.variable position) := by
  induction block using block_induction generalizing locals with
  | nil => cases used
  | cons stmt rest inner later =>
    rw [blockUsesFree, usesFree_eq, Bool.or_eq_true, Bool.or_eq_true] at used
    rw [blockReferences, references_eq]
    rcases used with (used | used) | used
    · obtain ⟨occurrence, mem, plain⟩ := any_eq_true.mp used
      refine ⟨occurrence.reference owner? locals, ?_, Occurrence.referent?_of_plain plain declared⟩
      exact mem_append_left _ (mem_append_left _ (mem_map_of_mem mem))
    · obtain ⟨block, memBlock, used⟩ := any_eq_true.mp used
      have entered : locals.enter.declaredAt? name = some position := declared
      obtain ⟨reference, mem, refers⟩ := inner block memBlock used entered
      refine ⟨reference, mem_append_left _ (mem_append_right _ ?_), refers⟩
      exact mem_flatMap.mpr ⟨block, memBlock, mem⟩
    · rw [Bool.and_eq_true, Option.all_eq_true] at used
      obtain ⟨absent, used⟩ := used
      have kept : (locals.declareAll stmt.declared?.toList).declaredAt? name = some position := by
        refine (Locals.declaredAt?_declareAll_of_notMem locals ?_).trans declared
        exact fun entry mem => of_decide_eq_true (absent entry (Option.mem_toList.mp mem))
      obtain ⟨reference, mem, refers⟩ := later used kept
      exact ⟨reference, mem_append_right _ mem, refers⟩

end Stmt

end Resolve

end ClassLang
