import Mathlib.Data.List.Flatten
import Mathlib.Data.List.Nodup
import Mathlib.Data.List.Pairwise
import ClassLang.Analysis
import ClassLang.Proofs.Folding
import ClassLang.Proofs.Resolution

/-! # Captured names

Simplification puts the statements of a decided branch in the place of the branch and drops its
scope, so a variable declared there comes into scope for what follows. The references of a program
stay as they are exactly if no such variable has the name of a free use that follows. -/

namespace ClassLang

open List Locals

variable {reference : Reference} {stmt : Stmt} {decl : ClassDecl}

/-! ## Ways of simplifying a statement -/

namespace Expr

/-- The occurrences in a member of something else than the current object. -/
theorem occurrences_member {target : Expr} (notSelf : target.isSelf = false) (name : String)
    (position : Position) : (member target name position).occurrences = target.occurrences := by
  cases target with
  | self => cases notSelf
  | _ => rfl

/-- The occurrences in a call of something without a name. -/
theorem occurrences_call {callee : Expr} (notNamed : callee.isNamed = false)
    (arguments : List Expr) (position : Position) :
    (call callee arguments position).occurrences =
      callee.occurrences ++ listOccurrences arguments := by
  cases callee with
  | ident | member => cases notNamed
  | _ => rfl

theorem occurrences_of_known {expr : Expr} {constant : Constant}
    (known : Constant.ofExpr? expr = some constant) : expr.occurrences = [] := by
  cases expr with
  | int | real | bool => rfl
  | _ => cases known

/-- An operation on two operands has their occurrences, also when it is computed. -/
theorem occurrences_combine (op : BinaryOp) (left right : Expr) (position : Position) :
    (combine op left right position).occurrences = left.occurrences ++ right.occurrences := by
  rcases combine_cases op left right position with
    combined | ⟨_, _, result, knownLeft, knownRight, _, combined⟩
  · rw [combined, occurrences]
  · rw [combined, occurrences_of_known knownLeft, occurrences_of_known knownRight]
    cases result <;> rfl

mutual

/-- Folding keeps the occurrences of names. -/
@[simp] theorem occurrences_fold (expr : Expr) : expr.fold.occurrences = expr.occurrences := by
  cases expr with
  | binary op left right =>
    rw [fold, occurrences_combine, left.occurrences_fold, right.occurrences_fold, occurrences]
  | member target name =>
    rw [fold]
    cases self : target.isSelf with
    | true =>
      cases target with
      | self => rfl
      | _ => cases self
    | false =>
      have folded : target.fold.isSelf = false := by rw [isSelf_fold, self]
      rw [occurrences_member folded, occurrences_member self, target.occurrences_fold]
  | call callee arguments =>
    rw [fold]
    cases named : callee.isNamed with
    | true =>
      cases callee with
      | ident name types place => exact listOccurrences_foldList arguments
      | member receiver name place =>
        rw [fold, occurrences, occurrences, receiver.occurrences_fold,
          listOccurrences_foldList arguments]
      | _ => cases named
    | false =>
      have folded : callee.fold.isNamed = false := by rw [isNamed_fold, named]
      rw [occurrences_call folded, occurrences_call named, callee.occurrences_fold,
        listOccurrences_foldList arguments]
  | _ => rfl

@[simp] theorem listOccurrences_foldList (exprs : List Expr) :
    listOccurrences (foldList exprs) = listOccurrences exprs := by
  cases exprs with
  | nil => rfl
  | cons expr rest =>
    rw [foldList, listOccurrences, listOccurrences, expr.occurrences_fold,
      listOccurrences_foldList rest]

end

end Expr

namespace Stmt

/-- The blocks of a statement that are left of it, as far as its test is decided. -/
def liveBlocks : Stmt → List (List Stmt)
  | .branch test body alternative _ =>
    match test.fold.asBool? with
    | some true => [body]
    | some false => alternative.toList
    | none => body :: alternative.toList
  | .loop test body _ => if test.fold.asBool? = some false then [] else [body]
  | _ => []

/-- The blocks that are left of a statement are among its blocks. -/
theorem liveBlocks_subset (stmt : Stmt) : stmt.liveBlocks ⊆ stmt.blocks := by
  cases stmt with
  | branch test body alternative =>
    rw [liveBlocks, blocks]
    split
    · exact cons_subset_cons _ (nil_subset _)
    · exact subset_cons_self _ _
    · exact Subset.refl _
  | loop test body =>
    rw [liveBlocks, blocks]
    split
    · exact nil_subset _
    · exact Subset.refl _
  | _ => exact Subset.refl _

/-- The ways of simplifying a statement: it stays with its blocks simplified, one of its blocks takes
its place, or it is dropped. -/
inductive Simplified (stmt : Stmt) : List Stmt → Prop
  | kept (result : Stmt) (declared : result.declared? = stmt.declared?)
      (occurrences : result.occurrences = stmt.occurrences)
      (blocks : result.blocks = stmt.blocks.map simplifyBlock)
      (live : stmt.liveBlocks = stmt.blocks) : stmt.Simplified [result]
  | taken (block : List Stmt) (undeclared : stmt.declared? = none) (mem : block ∈ stmt.blocks)
      (live : stmt.liveBlocks = [block]) : stmt.Simplified (simplifyBlock block)
  | dropped (undeclared : stmt.declared? = none) (live : stmt.liveBlocks = []) :
      stmt.Simplified []

/-- A statement is simplified in one of these ways. -/
theorem simplified_simplify (stmt : Stmt) : stmt.Simplified stmt.simplify := by
  have folded (exprs : List Expr) :
      (exprs.map Expr.fold).flatMap Expr.occurrences = exprs.flatMap Expr.occurrences := by
    simp [flatMap_map]
  cases stmt with
  | assign target value =>
    refine .kept _ rfl ?_ rfl rfl
    simp [occurrences, exprs]
  | branch test body alternative =>
    cases alternative with
    | none =>
      rw [simplify]
      split
      · next decided => exact .taken body rfl mem_cons_self (by simp [liveBlocks, decided])
      · next decided => exact .dropped rfl (by simp [liveBlocks, decided])
      · next undecided =>
          exact .kept _ rfl (folded [test]) rfl (by simp [liveBlocks, blocks, undecided])
    | some alternative =>
      rw [simplify]
      split
      · next decided => exact .taken body rfl mem_cons_self (by simp [liveBlocks, decided])
      · next decided =>
          refine .taken alternative rfl ?_ (by simp [liveBlocks, decided])
          exact mem_cons_of_mem _ (mem_singleton_self _)
      · next undecided =>
          exact .kept _ rfl (folded [test]) rfl (by simp [liveBlocks, blocks, undecided])
  | loop test body =>
    rw [simplify]
    split
    · next decided => exact .dropped rfl (if_pos decided)
    · next undecided => exact .kept _ rfl (folded [test]) rfl (if_neg undecided)
  | leave => exact .kept _ rfl rfl rfl rfl
  | declare name value | ret value | eval value =>
    exact .kept _ rfl (folded [value]) rfl rfl

/-! ## Captures -/

/-- The variables that simplification brings out of a statement. -/
def hoisted (stmt : Stmt) : List (String × Position) :=
  if stmt.declared?.isSome then [] else declaredOnTop stmt.simplify

mutual

/-- Whether in what is left of a statement a variable is brought out of a branch to a free use of
its name. -/
def captures : Stmt → Bool
  | .branch test body none _ => test.fold.asBool? ≠ some false && blockCaptures body
  | .branch test body (some alternative) _ =>
    (test.fold.asBool? ≠ some false && blockCaptures body) ||
      (test.fold.asBool? ≠ some true && blockCaptures alternative)
  | .loop test body _ => test.fold.asBool? ≠ some false && blockCaptures body
  | _ => false

/-- Whether in what is left of statements a variable is brought out of a branch to a free use of its
name. -/
def blockCaptures : List Stmt → Bool
  | [] => false
  | stmt :: rest =>
    stmt.captures ||
      (!endsInReturn stmt.simplify &&
        (stmt.hoisted.any (fun declared =>
            blockUsesFree declared.1 (simplifyBlock rest)) ||
          blockCaptures rest))

end

/-- A statement captures a name if one of the blocks that are left of it does. -/
theorem captures_eq (stmt : Stmt) : stmt.captures = stmt.liveBlocks.any blockCaptures := by
  cases stmt with
  | branch test body alternative =>
    cases alternative <;> rw [captures, liveBlocks] <;>
      rcases test.fold.asBool? with _ | _ | _ <;> simp
  | loop test body =>
    rw [captures, liveBlocks]
    by_cases decided : test.fold.asBool? = some false <;> simp [decided]
  | _ => rfl

/-- What simplification brings out of a statement, which is no declaration itself. -/
theorem mem_hoisted {declared : String × Position} :
    declared ∈ stmt.hoisted ↔ stmt.declared? = none ∧ declared ∈ declaredOnTop stmt.simplify := by
  unfold hoisted
  cases stmt.declared? <;> simp

end Stmt

section Resolve

variable {owner? : String → Option String} {first second : Locals Position}

/-! ## Simplification without captures -/

namespace Stmt

/-- After a statement and what takes its place, the same variables are in scope, as far as the rest
uses them and none is brought out to it. -/
theorem declaredAt?_declareAll_simplify {rest : List Stmt} (firstNonempty : first.scopes ≠ [])
    (secondNonempty : second.scopes ≠ [])
    (same : ∀ name, blockUsesFree name (stmt.simplify ++ rest) = true →
      first.declaredAt? name = second.declaredAt? name)
    (apart : ∀ declared ∈ stmt.hoisted, blockUsesFree declared.1 rest = false) {name : String}
    (used : blockUsesFree name rest = true) :
    (first.declareAll stmt.declared?.toList).declaredAt? name =
      (second.declareAll (declaredOnTop stmt.simplify)).declaredAt? name := by
  cases declares : stmt.declared? with
  | some declared =>
    cases stmt with
    | declare other init position =>
      cases declares
      change (first.declare other position).declaredAt? name =
        (second.declare other position).declaredAt? name
      by_cases equal : name = other
      · subst equal
        rw [declaredAt?_declare_self firstNonempty,
          declaredAt?_declare_self secondNonempty]
      · rw [declaredAt?_declare_of_ne first equal,
          declaredAt?_declare_of_ne second equal]
        refine same name ((blockUsesFree_append _ _).mpr (.inr ⟨?_, used⟩))
        rintro _ (_ | ⟨_, ⟨⟩⟩)
        exact Ne.symm equal
    | _ => cases declares
  | none =>
    have absent : ∀ declared ∈ declaredOnTop stmt.simplify, declared.1 ≠ name := by
      rintro declared mem rfl
      have hoisted : declared ∈ stmt.hoisted := by
        rw [hoisted, declares]
        exact mem
      rw [apart declared hoisted] at used
      cases used
    rw [declaredAt?_declareAll_of_notMem second absent]
    exact same name ((blockUsesFree_append _ _).mpr (.inr ⟨absent, used⟩))

/-- Whether the references in a block are found among those in another one, in the same order, if the
names that it uses refer to the same variables around both. -/
def RefersWithin (owner? : String → Option String) (result original : List Stmt) : Prop :=
  ∀ first second : Locals Position, first.scopes ≠ [] → second.scopes ≠ [] →
    (∀ name, blockUsesFree name result = true → first.declaredAt? name = second.declaredAt? name) →
    (blockReferences owner? second result).Sublist (blockReferences owner? first original)

/-- A statement is simplified without a change of references if the blocks that are left of it
are. -/
theorem refersWithin_simplify
    (inner : ∀ block ∈ stmt.liveBlocks, RefersWithin owner? (simplifyBlock block) block) :
    RefersWithin owner? stmt.simplify [stmt] := by
  intro first second firstNonempty secondNonempty same
  rw [blockReferences_singleton, references_eq]
  have simplified := stmt.simplified_simplify
  generalize stmt.simplify = results at same simplified ⊢
  cases simplified with
  | kept result declared occurrences blocks live =>
    rw [live] at inner
    simp only [blockUsesFree_singleton, usesFree_eq, Bool.or_eq_true, or_imp,
      forall_and, occurrences, blocks, any_map] at same
    obtain ⟨sameOutside, sameInside⟩ := same
    rw [blockReferences_singleton, references_eq, occurrences, blocks,
      flatMap_map, Occurrence.map_reference_congr sameOutside]
    refine (append_sublist_append_left _).mpr (Sublist.flatMap_right _ ?_)
    intro block mem
    refine inner block mem _ _ first.scopes_enter_ne_nil second.scopes_enter_ne_nil ?_
    exact fun name used => sameInside name (any_eq_true.mpr ⟨block, mem, used⟩)
  | taken block undeclared mem live =>
    -- the scope of the block is dropped, so it is compared with the scopes around it
    have within := inner block (by rw [live]; exact mem_singleton_self block) first.enter
      second first.scopes_enter_ne_nil secondNonempty same
    refine within.trans (Sublist.trans ?_ (sublist_append_right _ _))
    have single := (singleton_sublist.mpr mem).flatMap (blockReferences owner? first.enter)
    rwa [flatMap_singleton] at single
  | dropped undeclared live => exact nil_sublist _

/-- Statements that capture no name are simplified without a change of references. -/
theorem refersWithin_simplifyBlock (block : List Stmt) (free : blockCaptures block = false) :
    RefersWithin owner? (simplifyBlock block) block := by
  induction block using block_induction with
  | nil => exact fun _ _ _ _ _ => Sublist.refl _
  | cons stmt rest inner later =>
    rw [blockCaptures, Bool.or_eq_false_iff, captures_eq] at free
    obtain ⟨freeStmt, freeRest⟩ := free
    have within : RefersWithin owner? stmt.simplify [stmt] :=
      refersWithin_simplify fun block mem =>
        inner block (stmt.liveBlocks_subset mem)
          (Bool.eq_false_iff.mpr (any_eq_false.mp freeStmt block mem))
    intro first second firstNonempty secondNonempty same
    rw [simplifyBlock] at same ⊢
    rw [blockReferences]
    have head : (∀ name, blockUsesFree name stmt.simplify = true →
        first.declaredAt? name = second.declaredAt? name) →
        (blockReferences owner? second stmt.simplify).Sublist (stmt.references owner? first) := by
      intro same
      have references := within first second firstNonempty secondNonempty same
      rwa [blockReferences_singleton] at references
    split at same
    · next ends =>
        rw [if_pos ends]
        exact (head same).trans (sublist_append_left _ _)
    · next goesOn =>
        rw [Bool.eq_false_iff.mpr goesOn, Bool.not_false, Bool.true_and, Bool.or_eq_false_iff]
          at freeRest
        obtain ⟨apart, freeRest⟩ := freeRest
        rw [if_neg goesOn, blockReferences_append]
        refine Sublist.append (head ?_) ?_
        · exact fun name used => same name ((blockUsesFree_append _ _).mpr (.inl used))
        · refine later freeRest _ _ (scopes_declareAll_ne_nil firstNonempty _)
            (scopes_declareAll_ne_nil secondNonempty _) fun name used => ?_
          refine declaredAt?_declareAll_simplify firstNonempty secondNonempty same ?_ used
          exact fun declared mem => Bool.eq_false_iff.mpr (any_eq_false.mp apart declared mem)

/-! ## Sites of simplified statements -/

/-- What takes the place of a statement has no new sites if its blocks have none. -/
theorem blockSites_simplify_of_blocks
    (inner : ∀ block ∈ stmt.blocks, blockSites (simplifyBlock block) ⊆ blockSites block) :
    blockSites stmt.simplify ⊆ stmt.sites := by
  have inside {position : Position} {block : List Stmt} (mem : block ∈ stmt.blocks)
      (site : position ∈ blockSites (simplifyBlock block)) : position ∈ stmt.sites := by
    rw [sites_eq]
    exact mem_append_right _ (mem_flatMap.mpr ⟨block, mem, inner block mem site⟩)
  have simplified := stmt.simplified_simplify
  generalize stmt.simplify = results at simplified ⊢
  intro position site
  cases simplified with
  | kept result declared occurrences blocks live =>
    rw [blockSites_singleton, sites_eq, declared, occurrences, blocks, flatMap_map] at site
    rcases mem_append.mp site with outside | nested
    · rw [sites_eq]
      exact mem_append_left _ outside
    · obtain ⟨block, mem, site⟩ := mem_flatMap.mp nested
      exact inside mem site
  | taken block undeclared mem live => exact inside mem site
  | dropped undeclared live => cases site

/-- Simplified statements have no new sites. -/
theorem blockSites_simplifyBlock (block : List Stmt) :
    blockSites (simplifyBlock block) ⊆ blockSites block := by
  induction block using block_induction with
  | nil => exact Subset.refl _
  | cons stmt rest inner later =>
    have head := blockSites_simplify_of_blocks inner
    rw [simplifyBlock, blockSites]
    split
    · exact Subset.trans head (subset_append_left _ _)
    · rw [blockSites_append]
      exact append_subset.mpr ⟨Subset.trans head (subset_append_left _ _),
        Subset.trans later (subset_append_right _ _)⟩

theorem blockSites_simplify (stmt : Stmt) : blockSites stmt.simplify ⊆ stmt.sites :=
  blockSites_simplify_of_blocks fun block _ => blockSites_simplifyBlock block

end Stmt

/-! ## Simplification with captures -/

/-- A reference that is not among those of the part where its site is, is not among those of the
whole, if all sites are distinct. -/
theorem Reference.notMem_flatMap {α : Type} {parts : List α} {sites : α → List Position}
    {references : α → List Reference}
    (within : ∀ part ∈ parts, ∀ reference ∈ references part, reference.position ∈ sites part)
    (distinct : (parts.flatMap sites).Nodup) {part : α} (mem : part ∈ parts)
    (site : reference.position ∈ sites part) (absent : reference ∉ references part) :
    reference ∉ parts.flatMap references := by
  intro present
  obtain ⟨other, memOther, present⟩ := mem_flatMap.mp present
  have siteOther := within other memOther reference present
  have disjoint := (nodup_flatMap.mp distinct).2
  by_cases equal : part = other
  · subst equal
    exact absent present
  · have symmetric : Std.Symm (Function.onFun Disjoint sites) :=
      ⟨fun _ _ apart _ one two => apart two one⟩
    exact disjoint.forall mem memOther equal site siteOther

namespace Stmt

/-- A reference in a block of a statement that is not among those of the block is not among those of
the statement. -/
theorem notMem_references (distinct : stmt.sites.Nodup) {block : List Stmt}
    (mem : block ∈ stmt.blocks) {locals : Locals Position}
    (site : reference.position ∈ blockSites block)
    (absent : reference ∉ blockReferences owner? locals.enter block) :
    reference ∉ stmt.references owner? locals := by
  rw [sites_eq, nodup_append'] at distinct
  obtain ⟨-, distinctBlocks, disjoint⟩ := distinct
  rw [references_eq, mem_append]
  rintro (outside | inside)
  · obtain ⟨occurrence, memOccurrence, rfl⟩ := mem_map.mp outside
    exact disjoint (mem_append_right _ (mem_map_of_mem memOccurrence))
      (mem_flatMap.mpr ⟨block, mem, site⟩)
  · exact Reference.notMem_flatMap (fun _ _ _ => mem_blockSites_of_reference) distinctBlocks
      mem site absent inside

/-- Whether some reference in a block is not among those in another one, if nothing declared around
the latter is declared in it again. -/
def RefersBeyond (owner? : String → Option String) (result original : List Stmt) : Prop :=
  ∀ first second : Locals Position, second.scopes ≠ [] →
    (∀ name position, first.declaredAt? name = some position → position ∉ blockSites original) →
    ∃ reference ∈ blockReferences owner? second result,
      reference ∉ blockReferences owner? first original

/-- What takes the place of a statement changes a reference if one of the blocks that are left of it
does. -/
theorem refersBeyond_simplify (distinct : stmt.sites.Nodup) {block : List Stmt}
    (live : block ∈ stmt.liveBlocks) (inner : RefersBeyond owner? (simplifyBlock block) block) :
    RefersBeyond owner? stmt.simplify [stmt] := by
  intro first second nonempty apart
  rw [blockReferences_singleton]
  have mem := stmt.liveBlocks_subset live
  have apartInside (name : String) (position : Position)
      (found : first.enter.declaredAt? name = some position) :
      position ∉ blockSites block := by
    intro site
    refine apart name position found ?_
    rw [blockSites_singleton, sites_eq]
    exact mem_append_right _ (mem_flatMap.mpr ⟨block, mem, site⟩)
  have outside {around : Locals Position} {reference : Reference}
      (present : reference ∈ blockReferences owner? around (simplifyBlock block))
      (absent : reference ∉ blockReferences owner? first.enter block) :
      reference ∉ stmt.references owner? first :=
    notMem_references distinct mem
      (blockSites_simplifyBlock block (mem_blockSites_of_reference present)) absent
  have simplified := stmt.simplified_simplify
  generalize stmt.simplify = results at simplified ⊢
  cases simplified with
  | kept result declared occurrences blocks _ =>
    obtain ⟨reference, present, absent⟩ :=
      inner first.enter second.enter second.scopes_enter_ne_nil apartInside
    refine ⟨reference, ?_, outside present absent⟩
    rw [blockReferences_singleton, references_eq, blocks, flatMap_map]
    exact mem_append_right _ (mem_flatMap.mpr ⟨block, mem, present⟩)
  | taken taken undeclared _ lives =>
    rw [lives, mem_singleton] at live
    subst live
    obtain ⟨reference, present, absent⟩ := inner first.enter second nonempty apartInside
    exact ⟨reference, present, outside present absent⟩
  | dropped undeclared lives =>
    rw [lives] at live
    cases live

/-- Statements that capture a name, and whose sites are distinct, are simplified with a change of
references. -/
theorem refersBeyond_simplifyBlock (block : List Stmt) (captures : blockCaptures block = true)
    (distinct : (blockSites block).Nodup) : RefersBeyond owner? (simplifyBlock block) block := by
  induction block using block_induction with
  | nil => cases captures
  | cons stmt rest inner later =>
    intro first second nonempty apart
    rw [blockSites] at distinct apart
    obtain ⟨distinctStmt, distinctRest, disjoint⟩ := nodup_append'.mp distinct
    rw [blockCaptures, captures_eq, Bool.or_eq_true, Bool.and_eq_true, Bool.not_eq_true',
      Bool.or_eq_true] at captures
    rw [simplifyBlock, blockReferences]
    rcases captures with inStmt | ⟨goesOn, behind⟩
    · obtain ⟨block, live, captures⟩ := any_eq_true.mp inStmt
      have mem := stmt.liveBlocks_subset live
      have distinctBlock : (blockSites block).Nodup := by
        rw [sites_eq, nodup_append', nodup_flatMap] at distinctStmt
        exact distinctStmt.2.1.1 block mem
      obtain ⟨reference, present, absent⟩ :=
        refersBeyond_simplify distinctStmt live (inner block mem captures distinctBlock)
          first second nonempty (by
            intro name position found site
            rw [blockSites_singleton] at site
            exact apart name position found (mem_append_left _ site))
      rw [blockReferences_singleton] at absent
      refine ⟨reference, ?_, ?_⟩
      · split
        · exact present
        · rw [blockReferences_append]
          exact mem_append_left _ present
      · have site := blockSites_simplify stmt (mem_blockSites_of_reference present)
        rw [mem_append]
        rintro (same | later)
        · exact absent same
        · exact disjoint site (mem_blockSites_of_reference later)
    · -- a reference behind the statement that differs is in no part of what was written
      suffices differs : ∃ reference ∈ blockReferences owner?
          (second.declareAll (declaredOnTop stmt.simplify)) (simplifyBlock rest),
          reference ∉ blockReferences owner? (first.declareAll stmt.declared?.toList) rest by
        obtain ⟨reference, present, absent⟩ := differs
        have site := blockSites_simplifyBlock rest (mem_blockSites_of_reference present)
        refine ⟨reference, ?_, ?_⟩
        · rw [if_neg (Bool.eq_false_iff.mp goesOn), blockReferences_append]
          exact mem_append_right _ present
        · rw [mem_append]
          rintro (earlier | same)
          · exact disjoint (mem_sites_of_reference earlier) site
          · exact absent same
      rcases behind with hoists | inRest
      · obtain ⟨⟨name, position⟩, hoisted, used⟩ := any_eq_true.mp hoists
        obtain ⟨undeclared, onTop⟩ := mem_hoisted.mp hoisted
        obtain ⟨latest, found, declared⟩ := declaredAt?_declareAll_of_mem nonempty onTop
        obtain ⟨reference, present, refers⟩ := exists_reference_of_usesFree owner? used found
        have declaredSite : latest ∈ stmt.sites :=
          blockSites_simplify stmt (mem_blockSites_of_declaredOnTop declared)
        refine ⟨reference, present, fun same => ?_⟩
        rw [undeclared] at same
        rcases declared_of_reference same refers with ⟨other, around⟩ | inside
        · exact apart other latest around (mem_append_left _ declaredSite)
        · exact disjoint declaredSite inside
      · refine later inRest distinctRest _ _ (scopes_declareAll_ne_nil nonempty _) ?_
        intro name position found site
        rcases declaredAt?_of_declared found with before | declared
        · exact apart name position before (mem_append_right _ site)
        · exact disjoint declared site

end Stmt

end Resolve

/-! ## Programs -/

/-- The class whose field a name means in a class. -/
def Program.owner? (program : Program) (decl : ClassDecl) : String → Option String :=
  Frame.owner? ⟨program, decl, .empty⟩

/-- The parameters of a method, with their positions. -/
def Method.locals (method : Method) : Locals Position :=
  .ofParams (method.params.map fun param => (param.name, param.position))

variable (owner? : String → Option String)

/-- The references in a member of a class. -/
def Member.references : Member → List Reference
  | .field decl => decl.init.occurrences.map (Occurrence.reference owner? .empty)
  | .method decl => Stmt.blockReferences owner? decl.locals decl.body

/-- The references in a class. -/
def ClassDecl.references (decl : ClassDecl) : List Reference :=
  Stmt.blockReferences owner? .empty decl.init ++ decl.members.flatMap (Member.references owner?)

/-- The references in a program. -/
def Program.references (program : Program) : List Reference :=
  program.classes.flatMap fun decl => decl.references (program.owner? decl)

/-- The positions of the declarations and occurrences of names in a member of a class. -/
def Member.sites : Member → List Position
  | .field decl => decl.init.occurrences.map Occurrence.position
  | .method decl => decl.params.map Param.position ++ Stmt.blockSites decl.body

/-- The positions of the declarations and occurrences of names in a class. -/
def ClassDecl.sites (decl : ClassDecl) : List Position :=
  Stmt.blockSites decl.init ++ decl.members.flatMap Member.sites

/-- The positions of the declarations and occurrences of names in a program. -/
def Program.sites (program : Program) : List Position := program.classes.flatMap ClassDecl.sites

/-- Whether a name is captured in what is left of a member of a class. -/
def Member.captures : Member → Bool
  | .field _ => false
  | .method decl => Stmt.blockCaptures decl.body

/-- Whether a name is captured in what is left of a class. -/
def ClassDecl.captures (decl : ClassDecl) : Bool :=
  Stmt.blockCaptures decl.init || decl.members.any Member.captures

/-- Whether a name is captured in what is left of a program. -/
def Program.captures (program : Program) : Bool := program.classes.any ClassDecl.captures

/-- Simplification keeps the fields of a class, with simplified initial values. -/
theorem ClassDecl.fields_simplify (decl : ClassDecl) :
    decl.simplify.fields = decl.fields.map fun field => { field with init := field.init.fold } := by
  unfold ClassDecl.fields ClassDecl.simplify
  rw [filterMap_map, map_filterMap]
  refine filterMap_congr fun member _ => ?_
  cases member <;> rfl

theorem ClassDecl.field?_simplify (decl : ClassDecl) (name : String) :
    decl.simplify.field? name =
      (decl.field? name).map fun field => { field with init := field.init.fold } := by
  rw [ClassDecl.field?, ClassDecl.fields_simplify, find?_map]
  rfl

namespace Program

variable (program : Program)

/-- Simplification keeps the fields that are found, with simplified initial values. -/
theorem findField_simplify (name : String) (budget : Nat) (decl : ClassDecl) :
    program.simplify.findField name budget decl.simplify =
      (program.findField name budget decl).map fun found =>
        (found.1.simplify, { found.2 with init := found.2.init.fold }) := by
  induction budget generalizing decl with
  | zero => rfl
  | succ budget ih =>
    rw [findField, findField, ClassDecl.field?_simplify]
    cases decl.field? name with
    | some field => rfl
    | none =>
      have bases : decl.simplify.base.bind program.simplify.class? =
          (decl.base.bind program.class?).map ClassDecl.simplify := by
        change decl.base.bind _ = _
        cases decl.base with
        | none => rfl
        | some base => exact find?_map
      rw [Option.map_none, bases]
      cases decl.base.bind program.class? with
      | none => rfl
      | some base => exact ih base

/-- Simplification keeps the fields that names mean, with simplified initial values. -/
theorem fieldOf?_simplify (decl : ClassDecl) (name : String) :
    program.simplify.fieldOf? decl.simplify name =
      (program.fieldOf? decl name).map fun found =>
        (found.1.simplify, { found.2 with init := found.2.init.fold }) := by
  have count : program.simplify.classes.length = program.classes.length := length_map _
  rw [fieldOf?, fieldOf?, count]
  exact program.findField_simplify name _ decl

/-- Simplification keeps the classes that own the fields. -/
theorem owner?_simplify (decl : ClassDecl) :
    program.simplify.owner? decl.simplify = program.owner? decl := by
  funext name
  unfold owner? Frame.owner?
  rw [program.fieldOf?_simplify, Option.map_map]
  rfl

end Program

theorem Method.scopes_locals_ne_nil (method : Method) : method.locals.scopes ≠ [] :=
  scopes_declareAll_ne_nil (cons_ne_nil _ _) _

/-- The parameters in scope are those of the method. -/
theorem Method.mem_of_declaredAt? {method : Method} {name : String} {position : Position}
    (found : method.locals.declaredAt? name = some position) :
    position ∈ method.params.map Param.position := by
  rcases declaredAt?_of_declareAll found with before | mem
  · cases before
  · obtain ⟨param, memParam, equal⟩ := mem_map.mp mem
    cases equal
    exact mem_map_of_mem memParam

/-! ## Members, classes and programs without captures -/

/-- A member that captures no name keeps its references. -/
theorem Member.references_simplify {member : Member} (free : member.captures = false) :
    (member.simplify.references owner?).Sublist (member.references owner?) := by
  cases member with
  | field decl =>
    rw [Member.simplify, Member.references, Member.references, Expr.occurrences_fold]
  | method decl =>
    exact Stmt.refersWithin_simplifyBlock decl.body free decl.locals decl.locals
      decl.scopes_locals_ne_nil decl.scopes_locals_ne_nil fun _ _ => rfl

/-- A class that captures no name keeps its references. -/
theorem ClassDecl.references_simplify (free : decl.captures = false) :
    (decl.simplify.references owner?).Sublist (decl.references owner?) := by
  obtain ⟨freeInit, freeMembers⟩ := Bool.or_eq_false_iff.mp free
  refine Sublist.append ?_ ?_
  · exact Stmt.refersWithin_simplifyBlock decl.init freeInit .empty .empty (cons_ne_nil _ _)
      (cons_ne_nil _ _) fun _ _ => rfl
  · change ((decl.members.map Member.simplify).flatMap _).Sublist _
    rw [flatMap_map]
    refine Sublist.flatMap_right _ fun member mem => ?_
    exact Member.references_simplify owner?
      (Bool.eq_false_iff.mpr (any_eq_false.mp freeMembers member mem))

/-- A program that captures no name keeps its references, in order: what is left of it refers to what
it referred to before. -/
theorem Program.references_simplify_sublist {program : Program} (free : program.captures = false) :
    program.simplify.references.Sublist program.references := by
  change ((program.classes.map ClassDecl.simplify).flatMap _).Sublist _
  rw [flatMap_map]
  refine Sublist.flatMap_right _ fun decl mem => ?_
  rw [program.owner?_simplify]
  exact ClassDecl.references_simplify _ (Bool.eq_false_iff.mpr (any_eq_false.mp free decl mem))

/-! ## Members, classes and programs with captures -/

/-- A reference in a member has its site in it. -/
theorem Member.mem_sites_of_reference {owner? : String → Option String} {member : Member}
    (mem : reference ∈ member.references owner?) : reference.position ∈ member.sites := by
  cases member with
  | field decl =>
    obtain ⟨occurrence, memOccurrence, rfl⟩ := mem_map.mp mem
    exact mem_map_of_mem memOccurrence
  | method decl => exact mem_append_right _ (Stmt.mem_blockSites_of_reference mem)

/-- A member that captures a name refers to something else than before. -/
theorem Member.exists_reference_of_captures {member : Member}
    (captures : member.captures = true) (distinct : member.sites.Nodup) :
    ∃ reference ∈ member.simplify.references owner?,
      reference.position ∈ member.sites ∧ reference ∉ member.references owner? := by
  cases member with
  | field decl => cases captures
  | method decl =>
    obtain ⟨-, distinctBody, disjoint⟩ := nodup_append'.mp distinct
    obtain ⟨reference, present, absent⟩ :=
      Stmt.refersBeyond_simplifyBlock decl.body captures distinctBody decl.locals decl.locals
        decl.scopes_locals_ne_nil fun name position found =>
          disjoint (Method.mem_of_declaredAt? found)
    refine ⟨reference, present, mem_append_right _ ?_, absent⟩
    exact Stmt.blockSites_simplifyBlock _ (Stmt.mem_blockSites_of_reference present)

/-- A reference in a class has its site in it. -/
theorem ClassDecl.mem_sites_of_reference {owner? : String → Option String}
    (mem : reference ∈ decl.references owner?) : reference.position ∈ decl.sites := by
  rcases mem_append.mp mem with inInit | inMembers
  · exact mem_append_left _ (Stmt.mem_blockSites_of_reference inInit)
  · obtain ⟨member, memMember, inMember⟩ := mem_flatMap.mp inMembers
    refine mem_append_right _ (mem_flatMap.mpr ⟨member, memMember, ?_⟩)
    exact Member.mem_sites_of_reference inMember

/-- A class that captures a name refers to something else than before. -/
theorem ClassDecl.exists_reference_of_captures (captures : decl.captures = true)
    (distinct : decl.sites.Nodup) :
    ∃ reference ∈ decl.simplify.references owner?,
      reference.position ∈ decl.sites ∧ reference ∉ decl.references owner? := by
  obtain ⟨distinctInit, distinctMembers, disjoint⟩ := nodup_append'.mp distinct
  rcases Bool.or_eq_true _ _ ▸ captures with inInit | inMembers
  · obtain ⟨reference, present, absent⟩ :=
      Stmt.refersBeyond_simplifyBlock decl.init inInit distinctInit .empty .empty
        (cons_ne_nil _ _) fun name position found => nomatch found
    have site := Stmt.blockSites_simplifyBlock _ (Stmt.mem_blockSites_of_reference present)
    refine ⟨reference, mem_append_left _ present, mem_append_left _ site, ?_⟩
    intro mem
    rcases mem_append.mp mem with same | elsewhere
    · exact absent same
    · obtain ⟨member, memMember, inMember⟩ := mem_flatMap.mp elsewhere
      exact disjoint site
        (mem_flatMap.mpr ⟨member, memMember, Member.mem_sites_of_reference inMember⟩)
  · obtain ⟨member, memMember, captures⟩ := any_eq_true.mp inMembers
    have distinctMember := (nodup_flatMap.mp distinctMembers).1 member memMember
    obtain ⟨reference, present, site, absent⟩ :=
      Member.exists_reference_of_captures owner? captures distinctMember
    have inSites := mem_flatMap.mpr ⟨member, memMember, site⟩
    refine ⟨reference, mem_append_right _ ?_, mem_append_right _ inSites, ?_⟩
    · exact mem_flatMap.mpr ⟨_, mem_map_of_mem memMember, present⟩
    · intro mem
      rcases mem_append.mp mem with elsewhere | same
      · exact disjoint (Stmt.mem_blockSites_of_reference elsewhere) inSites
      · exact Reference.notMem_flatMap (fun _ _ _ => Member.mem_sites_of_reference)
          distinctMembers memMember site absent same

/-- Simplification keeps what every name in a program refers to exactly if it captures none: if no
variable that is brought out of a decided branch has the name of a free use that follows. It is
asked that no two names of the program stand at the same position. -/
theorem Program.references_simplify_iff {program : Program} (distinct : program.sites.Nodup) :
    (∀ reference ∈ program.simplify.references, reference ∈ program.references) ↔
      program.captures = false := by
  constructor
  · intro kept
    refine Bool.eq_false_iff.mpr fun captures => ?_
    obtain ⟨decl, memDecl, captures⟩ := any_eq_true.mp captures
    have distinctDecl := (nodup_flatMap.mp distinct).1 decl memDecl
    obtain ⟨reference, present, site, absent⟩ :=
      ClassDecl.exists_reference_of_captures (program.owner? decl) captures distinctDecl
    refine Reference.notMem_flatMap (fun _ _ _ => ClassDecl.mem_sites_of_reference) distinct
      memDecl site absent (kept reference ?_)
    rw [← program.owner?_simplify] at present
    exact mem_flatMap.mpr ⟨_, mem_map_of_mem memDecl, present⟩
  · exact fun free reference mem => (Program.references_simplify_sublist free).subset mem

/-- A method that writes out a field after a branch, always taken, with a variable of its name. -/
def shadowedField : Program :=
  let body : List Stmt :=
    [.branch (.binary .lt (.int "1" ⟨1, 40⟩) (.int "2" ⟨1, 44⟩) ⟨1, 40⟩)
       [.declare "x" (.int "5" ⟨1, 59⟩) ⟨1, 51⟩] none ⟨1, 37⟩,
     .eval (.call (.ident "write" [] ⟨1, 65⟩) [.ident "x" [] ⟨1, 71⟩] ⟨1, 65⟩) ⟨1, 65⟩]
  ⟨[⟨"A", none, [], [.field ⟨"x", .int "1" ⟨1, 20⟩, ⟨1, 12⟩⟩,
    .method ⟨"main", [], none, body, ⟨1, 22⟩⟩], ⟨1, 1⟩⟩]⟩

/-- The name that this program captures: its sites are distinct, and not all it refers to is kept. -/
theorem Program.references_simplify_shadowedField :
    shadowedField.sites.Nodup ∧
      ¬∀ reference ∈ shadowedField.simplify.references, reference ∈ shadowedField.references := by
  have distinct : shadowedField.sites.Nodup := by decide
  refine ⟨distinct, fun kept => ?_⟩
  have free := (Program.references_simplify_iff distinct).mp kept
  cases free

/-- Nothing is wrong with this program, and yet the name it writes out refers to its field before
simplification and to the variable after it. -/
theorem Program.isClean_analyze_shadowedField :
    shadowedField.analyze.isClean = true ∧
      shadowedField.references = [⟨⟨1, 71⟩, some (.field "A")⟩] ∧
      shadowedField.simplify.references = [⟨⟨1, 71⟩, some (.variable ⟨1, 51⟩)⟩] :=
  ⟨by decide +kernel, rfl, rfl⟩

end ClassLang
