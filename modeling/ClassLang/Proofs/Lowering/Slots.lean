import ClassLang.Lowering.Stmt
import ClassLang.Proofs.Execution
import Mathlib.Data.List.Forall2
import Mathlib.Logic.Function.Basic

/-! # Variables in slots

Visible variables have slots of their own, all below the next one to be given out. `Holds` relates the
variables of structured execution to slots of the machine: the two have the same scopes with the same
names, and each slot has the value of its variable. -/

namespace ClassLang

open List

/-! ## Slots that are given out -/

namespace Locals

variable {ι : Type} {locals : Locals ι}

/-- The variables that a method can have in scope at some point of it. -/
inductive Reached : Locals ι → Prop
  /-- At the start, its parameters. -/
  | start (params : List (String × ι)) : Reached (ofParams params)
  | enter {locals : Locals ι} (reached : Reached locals) : Reached locals.enter
  | exit {locals : Locals ι} (reached : Reached locals) : Reached locals.exit
  | declare {locals : Locals ι} (reached : Reached locals) (name : String) (info : ι) :
      Reached (locals.declare name info)

/-- The slots of the variables in scope, innermost and latest first. -/
def visible (locals : Locals ι) : List Nat := locals.scopes.flatten.map fun entry => entry.2.slot

/-- There is a scope, and visible variables have slots of their own that were given out before. -/
structure Allocated (locals : Locals ι) : Prop where
  nonempty : locals.scopes ≠ []
  /-- No two visible variables share a slot. -/
  distinct : locals.visible.Nodup
  /-- The slots of visible variables were given out. -/
  below : ∀ slot ∈ locals.visible, slot < locals.nextSlot

theorem visible_declare (nonempty : locals.scopes ≠ []) (name : String) (info : ι) :
    (locals.declare name info).visible = locals.nextSlot :: locals.visible := by
  obtain ⟨scope, outer, scopes⟩ := exists_cons_of_ne_nil nonempty
  simp [visible, declare, scopes]

@[simp] theorem nextSlot_declare (locals : Locals ι) (name : String) (info : ι) :
    (locals.declare name info).nextSlot = locals.nextSlot + 1 := by
  simp [nextSlot, declare]

/-- Closing a scope only hides variables. -/
theorem visible_exit_sublist (locals : Locals ι) : locals.exit.visible.Sublist locals.visible := by
  unfold exit
  split
  · next scope outer rest scopes =>
    simp only [visible, scopes, flatten_cons]
    exact (sublist_append_right _ _).map _
  · exact Sublist.refl _

namespace Allocated

variable {locals : Locals ι}

variable (allocated : locals.Allocated)

include allocated

theorem enter : locals.enter.Allocated :=
  ⟨cons_ne_nil _ _, allocated.distinct, allocated.below⟩

/-- Closing a scope keeps the slots apart. -/
theorem exit : locals.exit.Allocated := by
  have sublist := visible_exit_sublist locals
  refine ⟨?_, allocated.distinct.sublist sublist, ?_⟩
  · unfold Locals.exit
    split
    · exact cons_ne_nil _ _
    · exact allocated.nonempty
  · intro slot inside
    have same : locals.exit.nextSlot = locals.nextSlot := by
      unfold Locals.exit
      split <;> rfl
    rw [same]
    exact allocated.below slot (sublist.subset inside)

/-- A declaration takes a slot that no visible variable has. -/
theorem declare (name : String) (info : ι) : (locals.declare name info).Allocated := by
  have visible := visible_declare allocated.nonempty name info
  refine ⟨?_, ?_, ?_⟩
  · obtain ⟨scope, outer, scopes⟩ := exists_cons_of_ne_nil allocated.nonempty
    simp [Locals.declare, scopes]
  · rw [visible, nodup_cons]
    refine ⟨fun inside => ?_, allocated.distinct⟩
    exact absurd (allocated.below _ inside) (Nat.lt_irrefl _)
  · intro slot inside
    rw [visible, mem_cons] at inside
    rw [nextSlot_declare]
    rcases inside with rfl | inside
    · exact Nat.lt_succ_self _
    · exact Nat.lt_succ_of_lt (allocated.below slot inside)

end Allocated

/-- Declaring parameters one after the other keeps the slots apart. -/
theorem allocated_foldl (params : List (String × ι)) (allocated : locals.Allocated) :
    (params.foldl (fun locals param => locals.declare param.1 param.2) locals).Allocated := by
  induction params generalizing locals with
  | nil => exact allocated
  | cons param rest ih => exact ih (allocated.declare param.1 param.2)

/-- At every point of a method the slots of the visible variables are apart. -/
theorem Reached.allocated (reached : locals.Reached) : locals.Allocated := by
  induction reached with
  | start params =>
    refine allocated_foldl params ⟨cons_ne_nil _ _, nodup_nil, ?_⟩
    intro slot inside
    exact absurd inside (not_mem_nil)
  | enter _ ih => exact ih.enter
  | exit _ ih => exact ih.exit
  | declare _ name info ih => exact ih.declare name info

/-- The variables without the latest ones of the innermost scope. -/
def withoutLatest (locals : Locals ι) (count : Nat) : Locals ι :=
  match locals.scopes with
  | [] => locals
  | scope :: outer => { locals with scopes := scope.drop count :: outer }

@[simp] theorem withoutLatest_zero (locals : Locals ι) : locals.withoutLatest 0 = locals := by
  unfold withoutLatest
  split
  · rfl
  · next scopes => simp [← scopes]

/-- Variables were added to the innermost scope. -/
def Adds (before after : Locals ι) : Prop :=
  ∃ new scope outer, before.scopes = scope :: outer ∧ after.scopes = (new ++ scope) :: outer

theorem Adds.refl (nonempty : locals.scopes ≠ []) : locals.Adds locals := by
  obtain ⟨scope, outer, scopes⟩ := exists_cons_of_ne_nil nonempty
  exact ⟨[], scope, outer, scopes, scopes⟩

theorem Adds.declare (nonempty : locals.scopes ≠ []) (name : String) (info : ι) :
    locals.Adds (locals.declare name info) := by
  obtain ⟨scope, outer, scopes⟩ := exists_cons_of_ne_nil nonempty
  refine ⟨[(name, ⟨locals.nextSlot, info⟩)], scope, outer, scopes, ?_⟩
  simp [Locals.declare, scopes]

end Locals

/-! ## Slots that hold variables -/

section Holds

variable {V : Type} {slots others : Nat → Option V} {locals : Locals (Option Scalar)}
  {environment : Environment V} {scope : List (String × Local (Option Scalar))} {name : String}
  {bindings : List (String × Typed V)} {found : Local (Option Scalar)}

/-- A slot holds the value of a variable of the same name and kind. -/
def Stored (slots : Nat → Option V) (entry : String × Local (Option Scalar))
    (binding : String × Typed V) : Prop :=
  entry.1 = binding.1 ∧ entry.2.info = binding.2.kind ∧ slots entry.2.slot = some binding.2.value

/-- Slots hold the variables of an environment, scope by scope. -/
def Holds (slots : Nat → Option V) (locals : Locals (Option Scalar))
    (environment : Environment V) : Prop :=
  List.Forall₂ (List.Forall₂ (Stored slots)) locals.scopes environment.scopes

/-- What slots hold about one scope depends on its slots only. -/
theorem scope_congr (stored : Forall₂ (Stored slots) scope bindings)
    (same : ∀ entry ∈ scope, others entry.2.slot = slots entry.2.slot) :
    Forall₂ (Stored others) scope bindings := by
  induction stored with
  | nil => exact .nil
  | cons first _ ih =>
    refine .cons ⟨first.1, first.2.1, ?_⟩ (ih fun entry member => ?_)
    · rw [same _ mem_cons_self, first.2.2]
    · exact same entry (mem_cons_of_mem _ member)

/-- What slots hold about scopes depends on their slots only. -/
theorem scopes_congr {scopes : List (List (String × Local (Option Scalar)))}
    {bindings : List (List (String × Typed V))}
    (stored : Forall₂ (Forall₂ (Stored slots)) scopes bindings)
    (same : ∀ entry ∈ scopes.flatten, others entry.2.slot = slots entry.2.slot) :
    Forall₂ (Forall₂ (Stored others)) scopes bindings := by
  induction stored with
  | nil => exact .nil
  | cons first _ ih =>
    rw [flatten_cons] at same
    refine .cons (scope_congr first fun entry member => ?_) (ih fun entry member => ?_)
    · exact same entry (mem_append_left _ member)
    · exact same entry (mem_append_right _ member)

namespace Holds

theorem enter (holds : Holds slots locals environment) :
    Holds slots locals.enter environment.enter :=
  .cons .nil holds

theorem of_scopes {later : Locals (Option Scalar)} (holds : Holds slots locals environment)
    (scopes : later.scopes = locals.scopes) : Holds slots later environment := by
  unfold Holds
  rw [scopes]
  exact holds

/-- Variables that were added since do not matter. -/
theorem of_adds {after : Locals (Option Scalar)} {pending : Nat}
    (holds : Holds slots (locals.withoutLatest pending) environment) (adds : locals.Adds after) :
    ∃ pending, Holds slots (after.withoutLatest pending) environment := by
  obtain ⟨new, scope, outer, before, now⟩ := adds
  refine ⟨new.length + pending, holds.of_scopes ?_⟩
  simp only [Locals.withoutLatest, before, now, drop_length_add_append]

/-- Closing a scope on both sides, also before all its variables are declared. -/
theorem leave {after : Locals (Option Scalar)} {pending : Nat}
    (holds : Holds slots (after.withoutLatest pending) environment)
    (adds : locals.enter.Adds after) : Holds slots locals environment.leave := by
  obtain ⟨new, scope, outer, before, now⟩ := adds
  obtain ⟨rfl, rfl⟩ : [] = scope ∧ locals.scopes = outer := cons.inj before
  unfold Holds Locals.withoutLatest at holds
  simp only [now] at holds
  unfold Holds Environment.leave
  generalize environment.scopes = bindings at holds ⊢
  cases holds with
  | cons _ outer => exact outer

theorem congr (holds : Holds slots locals environment)
    (same : ∀ slot ∈ locals.visible, others slot = slots slot) : Holds others locals environment :=
  scopes_congr holds fun _ inside => same _ (mem_map_of_mem inside)

/-- A declared variable is held by the next slot. -/
theorem declare (holds : Holds slots locals environment) (allocated : locals.Allocated)
    (name : String) (typed : Typed V) :
    Holds (Function.update slots locals.nextSlot (some typed.value))
      (locals.declare name typed.kind) (environment.declare name typed) := by
  have kept : Holds (Function.update slots locals.nextSlot (some typed.value)) locals
      environment := by
    refine holds.congr fun slot inside => ?_
    exact Function.update_of_ne (Nat.ne_of_lt (allocated.below slot inside)) _ _
  obtain ⟨names, scopes⟩ := locals
  obtain ⟨bindings⟩ := environment
  unfold Holds at kept ⊢
  cases kept with
  | nil => exact absurd rfl allocated.nonempty
  | cons inner outer =>
    refine .cons (.cons ⟨rfl, rfl, ?_⟩ inner) outer
    exact Function.update_self _ _ _

end Holds

/-- What slots hold about one scope, looked up by name. -/
theorem lookup_scope (stored : Forall₂ (Stored slots) scope bindings) (name : String) :
    Option.Rel (fun found typed => found.info = typed.kind ∧ slots found.slot = some typed.value)
      (scope.lookup name) (bindings.lookup name) := by
  induction stored with
  | nil => exact .none
  | @cons entry typed scope bindings first _ ih =>
    obtain ⟨key, found⟩ := entry
    obtain ⟨key', typed⟩ := typed
    obtain ⟨same, kind, value⟩ := first
    subst same
    rw [lookup_cons, lookup_cons]
    cases name == key with
    | true => exact .some ⟨kind, value⟩
    | false => exact ih

/-- A name is a variable in slots exactly if it is one of the environment, with the same kind, and its
slot has its value. -/
theorem Holds.lookup (holds : Holds slots locals environment) (name : String) :
    Option.Rel (fun found typed => found.info = typed.kind ∧ slots found.slot = some typed.value)
      (locals.lookup name) (environment.lookup name) := by
  obtain ⟨names, scopes⟩ := locals
  obtain ⟨bindings⟩ := environment
  change Forall₂ _ scopes bindings at holds
  change Option.Rel _ (scopes.findSome? _) (bindings.findSome? _)
  induction holds with
  | nil => exact .none
  | @cons scope bindings _ _ stored _ ih =>
    have here := lookup_scope stored name
    rw [findSome?_cons, findSome?_cons]
    generalize scope.lookup name = found at here ⊢
    generalize bindings.lookup name = typed at here ⊢
    cases here with
    | none => exact ih
    | some related => exact .some related

/-! ## Assignment -/

/-- A variable that a name means in a scope is a variable of the scope. -/
theorem mem_of_lookup {α : Type} {scope : List (String × α)} {found : α}
    (looked : scope.lookup name = some found) : (name, found) ∈ scope := by
  obtain ⟨before, after, rfl, _⟩ := lookup_eq_some_iff.mp looked
  exact mem_append_right _ mem_cons_self

theorem mem_of_findSome {α : Type} {scopes : List (List (String × α))} {found : α}
    (looked : scopes.findSome? (lookup name) = some found) : (name, found) ∈ scopes.flatten := by
  obtain ⟨scope, member, inside⟩ := exists_of_findSome?_eq_some looked
  exact mem_flatten.mpr ⟨scope, member, mem_of_lookup inside⟩

/-- In one scope, giving a variable a value is giving its slot that value. -/
theorem scope_assign (stored : Forall₂ (Stored slots) scope bindings)
    (distinct : (scope.map fun entry => entry.2.slot).Nodup)
    (looked : scope.lookup name = some found) (value : V) :
    Forall₂ (Stored (Function.update slots found.slot (some value))) scope
      (assignInScope name value bindings) := by
  induction stored with
  | nil => cases looked
  | @cons entry typed scope bindings first rest ih =>
    obtain ⟨key, here⟩ := entry
    obtain ⟨key', typed⟩ := typed
    obtain ⟨same, kind, held⟩ := first
    subst same
    rw [map_cons, nodup_cons] at distinct
    rw [lookup_cons] at looked
    by_cases equal : name = key
    · subst equal
      obtain rfl : here = found := by simpa using looked
      rw [assignInScope, if_pos rfl]
      refine .cons ⟨rfl, kind, Function.update_self _ _ _⟩ (scope_congr rest fun entry member => ?_)
      refine Function.update_of_ne (fun clash => distinct.1 ?_) _ _
      exact clash ▸ mem_map_of_mem member
    · have below : scope.lookup name = some found := by
        rw [beq_false_of_ne equal] at looked
        exact looked
      rw [assignInScope, if_neg equal]
      refine .cons ⟨rfl, kind, ?_⟩ (ih distinct.2 below)
      rw [← held]
      refine Function.update_of_ne (fun clash => distinct.1 ?_) _ _
      exact mem_map.mpr ⟨_, mem_of_lookup below, clash.symm⟩

/-- Giving a variable a value is giving its slot that value. -/
theorem scopes_assign {scopes : List (List (String × Local (Option Scalar)))}
    {bindings : List (List (String × Typed V))}
    (stored : Forall₂ (Forall₂ (Stored slots)) scopes bindings)
    (distinct : (scopes.flatten.map fun entry => entry.2.slot).Nodup)
    (looked : scopes.findSome? (lookup name) = some found) (value : V) :
    Forall₂ (Forall₂ (Stored (Function.update slots found.slot (some value)))) scopes
      (assignInScopes name value bindings) := by
  induction stored with
  | nil => cases looked
  | @cons scope inner scopes outer first rest ih =>
    rw [flatten_cons, map_append, nodup_append] at distinct
    obtain ⟨inside, outside, apart⟩ := distinct
    have related := lookup_scope first name
    rw [findSome?_cons] at looked
    rw [assignInScopes]
    cases here : scope.lookup name with
    | some local' =>
      rw [here] at looked related
      obtain rfl : local' = found := by simpa using looked
      have isSome : (inner.lookup name).isSome = true := by
        cases bound : inner.lookup name with
        | some => rfl
        | none => rw [bound] at related; cases related
      rw [if_pos isSome]
      refine .cons (scope_assign first inside here value) (scopes_congr rest fun entry member => ?_)
      refine Function.update_of_ne (fun clash => ?_) _ _
      exact apart _ (mem_map_of_mem (mem_of_lookup here)) _ (mem_map_of_mem member) clash.symm
    | none =>
      rw [here] at looked related
      have isNone : ¬(inner.lookup name).isSome = true := by
        cases bound : inner.lookup name with
        | none => simp
        | some => rw [bound] at related; cases related
      rw [if_neg isNone]
      refine .cons (scope_congr first fun entry member => ?_) (ih outside looked)
      refine Function.update_of_ne (fun clash => ?_) _ _
      exact apart _ (mem_map_of_mem member) _ (mem_map_of_mem (mem_of_findSome looked)) clash

end Holds

end ClassLang
