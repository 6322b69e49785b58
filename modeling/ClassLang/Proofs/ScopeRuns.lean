import ClassLang.Proofs.Resolution
import ClassLang.Proofs.Analysis.Balance
import Mathlib.Data.List.Basic
import Mathlib.Data.List.Induction

/-! # Runs of scopes

Scopes are opened and closed in any order, with entries put into the innermost one between. What is
known after such a run is told from its history alone: an entry counts as long as the scope that it
was put into is open, inner scopes go before outer ones, and later entries before earlier ones. -/

namespace ClassLang

open List

/-! ## Histories -/

/-- A step of a run. -/
inductive ScopeStep (α : Type) where
  | enter
  | exit
  /-- An entry is put into the innermost scope. -/
  | put (entry : α)
  deriving DecidableEq, Repr

namespace ScopeStep

variable {α : Type} {history before later : List (ScopeStep α)} {step : ScopeStep α} {entry : α}
  {level count : Nat}

/-- How many scopes are open after a step. A scope too many cannot be closed. -/
def heightAfter (height : Nat) : ScopeStep α → Nat
  | enter => height + 1
  | exit => height - 1
  | put _ => height

/-- How many scopes are open after a history, besides those at its start. -/
def height (history : List (ScopeStep α)) : Nat := history.foldl heightAfter 0

/-- The entries of a history. -/
def entries (history : List (ScopeStep α)) : List α :=
  history.filterMap fun
    | put entry => some entry
    | _ => none

@[simp] theorem height_concat : height (history ++ [step]) = step.heightAfter (height history) :=
  foldl_concat ..

@[simp] theorem entries_append : entries (before ++ later) = entries before ++ entries later :=
  filterMap_append

@[simp] theorem entries_map_put (list : List α) : entries (list.map put) = list := by
  simp [entries, filterMap_map]

/-- Entries neither open nor close a scope. -/
theorem height_map_put_append (list : List α) (history : List (ScopeStep α)) :
    height (list.map put ++ history) = height history := by
  induction list with
  | nil => rfl
  | cons entry rest ih => exact ih

/-- An entry was put into the scope at a level, as the one after `count` others, and the scope was not
closed since. -/
def Lives (history : List (ScopeStep α)) (level count : Nat) (entry : α) : Prop :=
  ∃ before later, history = before ++ put entry :: later ∧ height before = level ∧
    (entries before).length = count ∧
    ∀ more, more <+: put entry :: later → level ≤ height (before ++ more)

theorem Lives.le_height (holds : Lives history level count entry) : level ≤ height history := by
  obtain ⟨before, later, rfl, _, _, isOpen⟩ := holds
  exact isOpen _ (prefix_refl _)

theorem Lives.getElem?_entries (holds : Lives history level count entry) :
    (entries history)[count]? = some entry := by
  obtain ⟨before, later, rfl, _, rfl, _⟩ := holds
  rw [entries_append, getElem?_append_right (Nat.le_refl _), Nat.sub_self]
  rfl

/-- A step closes a scope or keeps what it holds, and may put an entry into the innermost one. -/
theorem lives_concat_iff : Lives (history ++ [step]) level count entry ↔
    (Lives history level count entry ∧ level ≤ height (history ++ [step])) ∨
      (step = put entry ∧ level = height history ∧ count = (entries history).length) := by
  constructor
  · rintro ⟨before, later, same, rfl, rfl, isOpen⟩
    rcases eq_nil_or_concat' later with rfl | ⟨later, last, rfl⟩
    · obtain ⟨rfl, last⟩ := append_inj' same rfl
      exact .inr ⟨singleton_inj.mp last, rfl, rfl⟩
    · rw [← cons_append, ← append_assoc] at same
      obtain ⟨rfl, _⟩ := append_inj' same rfl
      refine .inl ⟨⟨before, later, rfl, rfl, rfl, fun more early => ?_⟩, ?_⟩
      · exact isOpen more (early.trans (prefix_append _ [last]))
      · rw [same, append_assoc]
        exact isOpen _ (prefix_refl _)
  · rintro (⟨⟨before, later, rfl, rfl, rfl, isOpen⟩, le⟩ | ⟨rfl, rfl, rfl⟩)
    · refine ⟨before, later ++ [step], by simp, rfl, rfl, fun more early => ?_⟩
      rw [← cons_append, prefix_concat_iff] at early
      rcases early with rfl | early
      · rwa [← append_assoc]
      · exact isOpen more early
    · refine ⟨history, [], rfl, rfl, rfl, fun more early => ?_⟩
      rw [← nil_append [put entry], prefix_concat_iff, prefix_nil] at early
      rcases early with rfl | rfl <;> simp [heightAfter]

/-- A step that keeps a scope open and puts nothing into it keeps what it holds. -/
theorem lives_concat_of_ne (isOpen : level ≤ height (history ++ [step]))
    (other : step = put entry → level ≠ height history) :
    Lives (history ++ [step]) level count entry ↔ Lives history level count entry := by
  rw [lives_concat_iff]
  constructor
  · rintro (held | ⟨put, here, _⟩)
    · exact held.1
    · exact absurd here (other put)
  · exact fun held => .inl ⟨held, isOpen⟩

/-- Steps that open and close scopes in pairs. -/
inductive Balanced : List (ScopeStep α) → Prop
  | nil : Balanced []
  | put (entry : α) {rest} (balanced : Balanced rest) : Balanced (put entry :: rest)
  | enclosed {inner rest} (inside : Balanced inner) (balanced : Balanced rest) :
      Balanced (enter :: inner ++ exit :: rest)

/-- Every scope is as it should be at its level, which is the number of scopes around it. -/
inductive Leveled {σ : Type} (good : Nat → σ → Prop) : List σ → Prop
  | nil : Leveled good []
  | cons {scope outer} (here : good outer.length scope) (further : Leveled good outer) :
      Leveled good (scope :: outer)

theorem Leveled.mono {σ : Type} {good good' : Nat → σ → Prop} {scopes : List σ}
    (leveled : Leveled good scopes)
    (keeps : ∀ level < scopes.length, ∀ scope, good level scope → good' level scope) :
    Leveled good' scopes := by
  induction leveled with
  | nil => exact .nil
  | cons here _ ih =>
    exact .cons (keeps _ (Nat.lt_succ_self _) _ here)
      (ih fun level inside => keeps level (Nat.lt_succ_of_lt inside))

end ScopeStep

open ScopeStep

/-! ## Variables in slots -/

namespace Locals

variable {ι : Type} {history : List (ScopeStep (String × ι))}
  {scopes : List (List (String × Local ι))} {name : String}

/-- A step of a run. -/
def step (locals : Locals ι) : ScopeStep (String × ι) → Locals ι
  | .enter => locals.enter
  | .exit => locals.exit
  | .put entry => locals.declare entry.1 entry.2

/-- The variables after a history, with one scope at its start. -/
def after (history : List (ScopeStep (String × ι))) : Locals ι := history.foldl step empty

/-- The variables after the steps of a method with given parameters. -/
def run (params : List (String × ι)) (steps : List (ScopeStep (String × ι))) : Locals ι :=
  steps.foldl step (ofParams params)

theorem run_eq_after (params : List (String × ι)) (steps : List (ScopeStep (String × ι))) :
    run params steps = after (params.map .put ++ steps) := by
  rw [run, after, foldl_append, foldl_map]
  rfl

@[simp] theorem after_concat (history : List (ScopeStep (String × ι)))
    (next : ScopeStep (String × ι)) : after (history ++ [next]) = (after history).step next :=
  foldl_concat ..

/-- A scope at a level holds what a history says, latest first. -/
structure Holds (history : List (ScopeStep (String × ι))) (level : Nat)
    (scope : List (String × Local ι)) : Prop where
  entries : ∀ name slot info, (name, ⟨slot, info⟩) ∈ scope ↔ Lives history level slot (name, info)
  latest : scope.Pairwise fun later earlier => earlier.2.slot < later.2.slot

/-- Scopes that stay open hold the same after a step, unless it puts an entry into one of them. -/
theorem leveled_concat {next : ScopeStep (String × ι)} (recorded : Leveled (Holds history) scopes)
    (isOpen : scopes.length ≤ height (history ++ [next]) + 1)
    (other : ∀ entry, next = .put entry → scopes.length ≤ height history) :
    Leveled (Holds (history ++ [next])) scopes := by
  refine recorded.mono fun level inside scope holds => ⟨fun name slot info => ?_, holds.latest⟩
  rw [holds.entries, lives_concat_of_ne (by omega)]
  intro put
  have := other _ put
  omega

/-- Variables are those that a history says, in slots that are numbered in the order of their
declarations. -/
structure Follows (locals : Locals ι) (history : List (ScopeStep (String × ι))) : Prop where
  /-- There is a slot for every declaration. -/
  names : locals.names = (entries history).map Prod.fst
  /-- There is a scope besides those that the history opens. -/
  length : locals.scopes.length = height history + 1
  /-- The scopes hold what the history says. -/
  recorded : Leveled (Holds history) locals.scopes

/-- A step keeps to its history. -/
theorem Follows.step {locals : Locals ι} (follows : locals.Follows history)
    (next : ScopeStep (String × ι)) : (locals.step next).Follows (history ++ [next]) := by
  obtain ⟨names, length, recorded⟩ := follows
  obtain ⟨slots, scopes⟩ := locals
  cases recorded with
  | nil => cases length
  | @cons scope outer holds recorded =>
    replace names : slots = (entries history).map Prod.fst := names
    replace length : outer.length = height history := Nat.succ.inj length
    -- nothing is held by scopes that are not open
    have outside {level slot : Nat} {entry : String × ι} (holds : Lives history level slot entry) :
        level ≤ outer.length := length ▸ holds.le_height
    cases next with
    | enter =>
      refine ⟨by simp [Locals.step, enter, names, entries], by
        simp [Locals.step, enter, length, heightAfter], .cons ⟨fun name slot info => ⟨nofun, ?_⟩, .nil⟩
          (leveled_concat (.cons holds recorded) (by simp [length, heightAfter]) nofun)⟩
      intro held
      exact absurd (outside ((lives_concat_iff.mp held).resolve_right nofun).1) (by simp)
    | exit =>
      -- the last scope is never closed
      cases outer with
      | nil =>
        exact ⟨by simp [Locals.step, exit, names, entries], by
          simp [Locals.step, exit, ← length, heightAfter],
          leveled_concat (.cons holds .nil) (by simp [Locals.step, exit]) nofun⟩
      | cons next rest =>
        exact ⟨by simp [Locals.step, exit, names, entries], by
          simp [Locals.step, exit, ← length, heightAfter],
          leveled_concat recorded (by simp [Locals.step, exit, ← length, heightAfter]) nofun⟩
    | put entry =>
      refine ⟨by simp [Locals.step, declare, names, entries], by
        simp [Locals.step, declare, length, heightAfter], .cons ⟨fun name slot info => ?_, ?_⟩
          (leveled_concat recorded (by simp [length, heightAfter]) fun _ _ => Nat.le_of_eq length)⟩
      · have new : (name, Local.mk slot info) = (entry.1, ⟨nextSlot ⟨slots, scope :: outer⟩, entry.2⟩) ↔
            slot = (entries history).length ∧ entry = (name, info) := by
          simp [nextSlot, names, Prod.ext_iff, eq_comm, and_left_comm]
        rw [List.mem_cons, holds.entries, lives_concat_iff, new, or_comm]
        simp [heightAfter, length, and_comm]
      · refine List.pairwise_cons.mpr ⟨fun earlier inside => ?_, holds.latest⟩
        have found := ((holds.entries ..).mp inside).getElem?_entries
        simpa [nextSlot, names] using (List.getElem?_eq_some_iff.mp found).1

/-- The variables after a history are those that it says. -/
theorem follows_after (history : List (ScopeStep (String × ι))) : (after history).Follows history := by
  induction history using List.reverseRecOn with
  | nil =>
    refine ⟨rfl, rfl, .cons ⟨fun name slot info => ⟨nofun, ?_⟩, .nil⟩ .nil⟩
    rintro ⟨before, later, same, _⟩
    simp at same
  | append_singleton history next ih =>
    rw [after_concat]
    exact ih.step next

section Recorded

variable (recorded : Leveled (Holds history) scopes)

include recorded

/-- A name without a variable is held by no scope. -/
theorem not_lives
    (missing : scopes.findSome? (List.lookup name) = none) {level slot : Nat} {info : ι}
    (inside : level < scopes.length) : ¬Lives history level slot (name, info) := by
  induction recorded with
  | nil => cases inside
  | @cons scope outer holds _ ih =>
    rw [findSome?_eq_none_iff, forall_mem_cons] at missing
    rcases Nat.lt_succ_iff_lt_or_eq.mp inside with further | rfl
    · exact ih (findSome?_eq_none_iff.mpr missing.2) further
    · intro held
      simpa using lookup_eq_none_iff.mp missing.1 _ ((holds.entries ..).mpr held)

/-- The variable of a name is the latest one in the innermost scope that holds the name. -/
theorem latest_of_lookup {found : Local ι}
    (lookup : scopes.findSome? (List.lookup name) = some found) :
    ∃ level < scopes.length, Lives history level found.slot (name, found.info) ∧
      ∀ level' < scopes.length, ∀ slot info, Lives history level' slot (name, info) →
        level' ≤ level ∧ (level' = level → slot ≤ found.slot) := by
  induction recorded with
  | nil => cases lookup
  | @cons scope outer holds recorded ih =>
    rw [findSome?_cons] at lookup
    cases here : scope.lookup name with
    | none =>
      rw [here] at lookup
      obtain ⟨level, inside, held, most⟩ := ih lookup
      refine ⟨level, Nat.lt_succ_of_lt inside, held, fun level' inside' slot info held' => ?_⟩
      rcases Nat.lt_succ_iff_lt_or_eq.mp inside' with further | rfl
      · exact most level' further slot info held'
      · simpa using lookup_eq_none_iff.mp here _ ((holds.entries ..).mpr held')
    | some found' =>
      rw [here] at lookup
      cases lookup
      obtain ⟨later, earlier, rfl, others⟩ := lookup_eq_some_iff.mp here
      refine ⟨outer.length, Nat.lt_succ_self _, (holds.entries ..).mp (by simp), ?_⟩
      intro level' inside' slot info held'
      refine ⟨Nat.le_of_lt_succ inside', ?_⟩
      rintro rfl
      -- entries before it have other names, and those behind it are earlier
      rcases mem_append.mp ((holds.entries ..).mpr held') with before | behind
      · simpa using others _ before
      · rcases mem_cons.mp behind with same | behind
        · cases same
          exact Nat.le_refl _
        · exact Nat.le_of_lt ((pairwise_cons.mp (pairwise_append.mp holds.latest).2.1).1 _ behind)

/-- A name means the latest variable in the innermost scope that holds the name, and nothing else. -/
theorem findSome?_lookup_iff {slot : Nat} {info : ι} :
    scopes.findSome? (List.lookup name) = some ⟨slot, info⟩ ↔
      ∃ level < scopes.length, Lives history level slot (name, info) ∧
        ∀ level' < scopes.length, ∀ slot' info', Lives history level' slot' (name, info') →
          level' ≤ level ∧ (level' = level → slot' ≤ slot) := by
  refine ⟨latest_of_lookup recorded, ?_⟩
  rintro ⟨level, inside, held, most⟩
  cases lookup : scopes.findSome? (List.lookup name) with
  | none => exact absurd held (not_lives recorded lookup inside)
  | some found =>
    obtain ⟨level', inside', held', most'⟩ := latest_of_lookup recorded lookup
    obtain ⟨le, latest⟩ := most level' inside' _ _ held'
    obtain ⟨le', latest'⟩ := most' level inside _ _ held
    obtain rfl := Nat.le_antisymm le le'
    obtain rfl := Nat.le_antisymm (latest' rfl) (latest rfl)
    -- the entries of a history have numbers of their own
    have same := held.getElem?_entries.symm.trans held'.getElem?_entries
    cases same
    rfl

end Recorded

theorem leveled_outermost {inner : List (List (String × Local ι))} {scope : List (String × Local ι)}
    (recorded : Leveled (Holds history) (inner ++ [scope])) : Leveled (Holds history) [scope] := by
  induction inner with
  | nil => exact recorded
  | cons _ inner ih =>
    cases recorded with
    | cons _ recorded => exact ih recorded

/-- A variable of the outermost scope stays until its name is declared there again. -/
theorem lookup_outermost {before later : List (ScopeStep (String × ι))} {info : ι}
    (bottom : height before = 0) (once : ∀ mid more info',
      later = mid ++ put (name, info') :: more → height (before ++ mid) ≠ 0) :
    ∃ (inner : List (List (String × Local ι))) (outermost : List (String × Local ι)),
      (after (before ++ put (name, info) :: later)).scopes = inner ++ [outermost] ∧
      outermost.lookup name = some ⟨(entries before).length, info⟩ := by
  obtain ⟨_, length, recorded⟩ := follows_after (before ++ put (name, info) :: later)
  rcases eq_nil_or_concat' (after (before ++ put (name, info) :: later)).scopes with
    none | ⟨inner, outermost, scopes⟩
  · rw [none] at length
    cases length
  rw [scopes] at recorded
  refine ⟨inner, outermost, scopes, ?_⟩
  suffices means : [outermost].findSome? (List.lookup name) = some ⟨(entries before).length, info⟩ by
    simpa using means
  refine (findSome?_lookup_iff (leveled_outermost recorded)).mpr
    ⟨0, Nat.zero_lt_one, ⟨before, later, rfl, bottom, rfl, fun _ _ => Nat.zero_le _⟩, ?_⟩
  rintro level inside _ info' ⟨before', later', same, low, rfl, _⟩
  refine ⟨Nat.le_of_lt_succ inside, fun isBottom => ?_⟩
  subst isBottom
  rcases append_eq_append_iff.mp same with ⟨mid, rfl, rest⟩ | ⟨mid, rfl, _⟩
  · cases mid with
    | nil => simp
    | cons first mid =>
      obtain ⟨rfl, again⟩ := List.cons.inj rest
      refine absurd ?_ (once mid later' info' again)
      simpa [height, heightAfter] using low
  · simp

/-- A scope that was opened and only added to is closed without a trace. -/
theorem scopes_exit {locals : Locals ι} {new : List (String × Local ι)} (nonempty : scopes ≠ [])
    (inside : locals.scopes = addInnermost new ([] :: scopes)) : locals.exit.scopes = scopes := by
  obtain ⟨scope, outer, rfl⟩ := exists_cons_of_ne_nil nonempty
  simp [exit, inside, addInnermost]

/-- Steps in pairs only add to the innermost scope. -/
theorem scopes_foldl_balanced {steps : List (ScopeStep (String × ι))} (balanced : Balanced steps)
    (locals : Locals ι) (nonempty : locals.scopes ≠ []) :
    ∃ new, (steps.foldl step locals).scopes = addInnermost new locals.scopes := by
  induction balanced generalizing locals with
  | nil => exact ⟨[], (addInnermost_nil _).symm⟩
  | put entry _ ih =>
    have declared : (locals.declare entry.1 entry.2).scopes =
        addInnermost [(entry.1, ⟨locals.nextSlot, entry.2⟩)] locals.scopes := by
      unfold declare
      cases locals.scopes <;> rfl
    obtain ⟨new, added⟩ := ih (locals.declare entry.1 entry.2) (by
      rw [declared]
      cases scopes : locals.scopes <;> simp_all [addInnermost])
    exact ⟨_, by rw [foldl_cons, addInnermost_append, ← declared]; exact added⟩
  | enclosed _ _ inner rest =>
    obtain ⟨new, inside⟩ := inner locals.enter (cons_ne_nil _ _)
    have closed := scopes_exit nonempty inside
    obtain ⟨new, added⟩ := rest _ (closed ▸ nonempty)
    rw [closed] at added
    exact ⟨new, by rwa [cons_append, foldl_cons, foldl_append]⟩

/-- The variables of a method with given parameters are allocated as its history says, also where
scopes are closed too often. Every declaration takes the next slot; a name means the latest variable
in the innermost open scope that declares it; a parameter stays in the outermost scope until it is
declared there again; and steps from opening a scope to closing it leave nothing but names of slots. -/
theorem run_allocates (params : List (String × ι)) (steps : List (ScopeStep (String × ι))) :
    (run params steps).nextSlot = params.length + (entries steps).length ∧
    (∀ name info, ((run params steps).declare name info).lookup name =
      some ⟨(run params steps).nextSlot, info⟩) ∧
    (∀ entry more, (run params steps).nextSlot < (run params (steps ++ .put entry :: more)).nextSlot) ∧
    (∀ name slot info, (run params steps).lookup name = some ⟨slot, info⟩ ↔
      ∃ level, Lives (params.map .put ++ steps) level slot (name, info) ∧
        ∀ level' slot' info', Lives (params.map .put ++ steps) level' slot' (name, info') →
          level' ≤ level ∧ (level' = level → slot' ≤ slot)) ∧
    (∀ name, (run params steps).lookup name = none ↔
      ∀ level slot info, ¬Lives (params.map .put ++ steps) level slot (name, info)) ∧
    (∀ name found, (run params steps).lookup name = some found →
      (run params steps).names[found.slot]? = some name) ∧
    (∀ earlier name info others, params = earlier ++ (name, info) :: others →
      (∀ mid more info', others.map .put ++ steps = mid ++ .put (name, info') :: more →
        height mid ≠ 0) →
      ∃ inner outermost, (run params steps).scopes = inner ++ [outermost] ∧
        outermost.lookup name = some ⟨earlier.length, info⟩) ∧
    ∀ inner, Balanced inner →
      (run params (steps ++ .enter :: inner ++ [.exit])).names =
        (run params steps).names ++ (entries inner).map Prod.fst ∧
      ∀ name, (run params (steps ++ .enter :: inner ++ [.exit])).lookup name =
        (run params steps).lookup name := by
  have follows (steps : List (ScopeStep (String × ι))) :
      (run params steps).Follows (params.map put ++ steps) :=
    run_eq_after params steps ▸ follows_after _
  have nonempty : (run params steps).scopes ≠ [] :=
    ne_nil_of_length_eq_add_one (follows steps).length
  have count (steps : List (ScopeStep (String × ι))) :
      (run params steps).nextSlot = params.length + (entries steps).length := by
    simp [nextSlot, (follows steps).names]
  have recorded := (follows steps).recorded
  -- every level that holds something is that of an open scope
  have inside {level slot : Nat} {entry : String × ι}
      (holds : Lives (params.map put ++ steps) level slot entry) :
      level < (run params steps).scopes.length :=
    (follows steps).length ▸ Nat.lt_succ_of_le holds.le_height
  refine ⟨count steps, fun name info => lookup_declare_self nonempty name info, fun entry more => ?_,
    fun name slot info => ?_, fun name => ⟨fun missing level slot info holds => ?_, fun none => ?_⟩,
    fun name found lookup => ?_, ?_, fun inner balanced => ⟨?_, fun name => ?_⟩⟩
  · rw [count, count]
    simp [entries]
  · rw [lookup, findSome?_lookup_iff recorded]
    constructor
    · rintro ⟨level, _, holds, most⟩
      exact ⟨level, holds, fun level' slot' info' holds' =>
        most level' (inside holds') slot' info' holds'⟩
    · rintro ⟨level, holds, most⟩
      exact ⟨level, inside holds, holds, fun level' _ => most level'⟩
  · exact not_lives recorded missing (inside holds) holds
  · rw [Option.eq_none_iff_forall_ne_some]
    intro found lookup
    obtain ⟨level, _, holds, _⟩ := latest_of_lookup recorded lookup
    exact none _ _ _ holds
  · obtain ⟨level, _, holds, _⟩ := latest_of_lookup recorded lookup
    rw [(follows steps).names, getElem?_map, holds.getElem?_entries]
    rfl
  · rintro earlier name info others rfl once
    have bottom : height (earlier.map ScopeStep.put ++ []) = 0 := height_map_put_append earlier []
    rw [append_nil] at bottom
    have again : ∀ mid more info', others.map ScopeStep.put ++ steps =
        mid ++ put (name, info') :: more → height (earlier.map ScopeStep.put ++ mid) ≠ 0 :=
      fun mid more info' same => height_map_put_append earlier mid ▸ once mid more info' same
    rw [run_eq_after]
    simpa using lookup_outermost bottom again
  · rw [(follows _).names, (follows _).names]
    simp [entries]
  · obtain ⟨new, inside⟩ := scopes_foldl_balanced balanced (run params steps).enter
      (cons_ne_nil _ _)
    have closed := scopes_exit nonempty inside
    have same : (run params (steps ++ ScopeStep.enter :: inner ++ [ScopeStep.exit])).scopes =
        (run params steps).scopes := by
      rwa [run, foldl_append, foldl_append, foldl_cons]
    rw [lookup, lookup, same]

end Locals

/-! ## Declarations and types -/

namespace Scopes

/-- What is put into a scope. -/
inductive Entry where
  | declared (name : String) (declaration : Declaration)
  /-- A type is found for a name. -/
  | typed (name type : String)
  deriving DecidableEq, Repr

variable {scopes : Scopes} {steps : List (ScopeStep Entry)}

/-- A step of a run. -/
def step (scopes : Scopes) : ScopeStep Entry → Scopes
  | .enter => scopes.enter
  | .exit => scopes.exit
  | .put (.declared name declaration) => (scopes.declare? name declaration).getD scopes
  | .put (.typed name type) => scopes.setType name type

/-- The scopes after steps, with none at the start. -/
def run (steps : List (ScopeStep Entry)) : Scopes := steps.foldl step {}

@[simp] theorem run_concat (next : ScopeStep Entry) : run (steps ++ [next]) = (run steps).step next :=
  foldl_concat ..

theorem declare?_eq_none_iff {name : String} {declaration : Declaration} :
    scopes.declare? name declaration = none ↔ scopes.declarations = [] ∨
      ∃ scope outer, scopes.declarations = scope :: outer ∧ ∃ entry ∈ scope, entry.1 = name := by
  unfold declare?
  split
  · simp_all
  · next scope outer opened =>
    have taken : (scope.lookup name).isSome ↔ ∃ entry ∈ scope, entry.1 = name := by
      rw [← Option.ne_none_iff_isSome, ne_eq, lookup_eq_none_iff]
      simp [@eq_comm _ name]
    simp [opened, taken]

/-- An entry goes to the innermost scope, if it goes anywhere, and nothing else changes. -/
theorem step_put (scopes : Scopes) (entry : Entry) : ∃ names types,
    scopes.step (.put entry) = { scopes with
      declarations := addInnermost names scopes.declarations
      types := addInnermost types scopes.types } := by
  cases entry with
  | declared name declaration =>
    cases declared : scopes.declare? name declaration with
    | none => exact ⟨[], [], by simp [step, declared]⟩
    | some after =>
      refine ⟨[(name, declaration)], [], ?_⟩
      rw [← declarations_declare? declared, addInnermost_nil, step, declared, Option.getD_some]
      unfold declare? at declared
      split at declared
      · cases declared
      · obtain ⟨-, result⟩ := Option.ite_none_left_eq_some.mp declared
        cases result
        rfl
  | typed name type =>
    refine ⟨[], [(name, type)], ?_⟩
    rw [addInnermost_nil, step, setType]
    cases types : scopes.types with
    | nil => simp [addInnermost, ← types]
    | cons => rfl

/-- The stacks and counters fit together and are those of a history. -/
structure Counted (scopes : Scopes) (history : List (ScopeStep Entry)) : Prop where
  /-- Every open scope has its types. -/
  types : scopes.types.length = scopes.declarations.length
  /-- The open scopes are those that the history opened and did not close. -/
  height : scopes.declarations.length = height history
  /-- Every scope that the history opened is counted. -/
  entered : scopes.entered = history.count .enter
  /-- Scopes are open until they are closed. -/
  counts : scopes.declarations.length + scopes.exited = scopes.entered
  /-- The greatest height is not passed. -/
  deepest : scopes.declarations.length ≤ scopes.maxDepth

/-- A step keeps the counters right, and the greatest height grows only to the new one. -/
theorem Counted.step (counted : scopes.Counted steps) (next : ScopeStep Entry) :
    (scopes.step next).Counted (steps ++ [next]) ∧
      (scopes.step next).maxDepth = max scopes.maxDepth (scopes.step next).declarations.length := by
  obtain ⟨types, level, entered, counts, deepest⟩ := counted
  cases next with
  | enter =>
    refine ⟨⟨?_, ?_, ?_, ?_, ?_⟩, ?_⟩ <;>
      simp [Scopes.step, enter, count_append, heightAfter] <;> omega
  | exit =>
    rw [Scopes.step, exit]
    split
    · next none =>
      rw [none] at level
      refine ⟨⟨types, ?_, by simp [entered, count_append], counts, deepest⟩,
        (Nat.max_eq_left deepest).symm⟩
      simp [none, heightAfter, ← level]
    · next scope outer opened =>
      rw [opened, length_cons] at types level counts deepest
      refine ⟨⟨?_, ?_, ?_, ?_, ?_⟩, ?_⟩ <;> simp [types, entered, count_append, heightAfter] <;> omega
  | put entry =>
    obtain ⟨names, types', result⟩ := step_put scopes entry
    rw [result]
    refine ⟨⟨?_, ?_, ?_, ?_, ?_⟩, ?_⟩ <;> simp [count_append, heightAfter] <;> omega

theorem counted_run (steps : List (ScopeStep Entry)) : (run steps).Counted steps := by
  induction steps using List.reverseRecOn with
  | nil => exact ⟨rfl, rfl, rfl, rfl, Nat.le_refl _⟩
  | append_singleton steps next ih =>
    rw [run_concat]
    exact (ih.step next).1

/-- A scope has the names that were declared in it since it was opened. -/
def Names (history : List (ScopeStep Entry)) (level : Nat) (scope : List (String × Declaration)) :
    Prop :=
  ∀ name, (∃ entry ∈ scope, entry.1 = name) ↔
    ∃ count declaration, Lives history (level + 1) count (.declared name declaration)

/-- Scopes that stay open have the same names after a step, unless it declares one there. -/
theorem leveled_concat {next : ScopeStep Entry} {declarations : List (List (String × Declaration))}
    (named : Leveled (Names steps) declarations)
    (isOpen : declarations.length ≤ height (steps ++ [next])) (other : ∀ name declaration,
      next = .put (.declared name declaration) → declarations.length < height steps) :
    Leveled (Names (steps ++ [next])) declarations := by
  refine named.mono fun level inside scope names name => (names name).trans ?_
  refine exists_congr fun count => exists_congr fun declaration => (lives_concat_of_ne ?_ ?_).symm
  · omega
  · intro put
    have := other _ _ put
    omega

/-- A name that is put into the innermost scope is a name of it, whether or not it was one before. -/
theorem step_declared {scope : List (String × Declaration)}
    {outer : List (List (String × Declaration))} (opened : scopes.declarations = scope :: outer)
    (name : String) (declaration : Declaration) : ∃ scope',
      (scopes.step (.put (.declared name declaration))).declarations = scope' :: outer ∧
        ∀ other, (∃ entry ∈ scope', entry.1 = other) ↔
          (∃ entry ∈ scope, entry.1 = other) ∨ other = name := by
  cases declared : scopes.declare? name declaration with
  | none =>
    have taken : ∃ entry ∈ scope, entry.1 = name := by
      simpa [opened] using declare?_eq_none_iff.mp declared
    refine ⟨scope, by simp [step, declared, opened], fun other => ⟨.inl, ?_⟩⟩
    rintro (held | rfl)
    · exact held
    · exact taken
  | some after =>
    have added := declarations_declare? declared
    refine ⟨(name, declaration) :: scope, ?_, fun other => by simp [or_comm, eq_comm]⟩
    simp [step, declared, added, opened, addInnermost]

/-- A step keeps to the names that its history says. -/
theorem leveled_step (counted : scopes.Counted steps)
    (named : Leveled (Names steps) scopes.declarations) (next : ScopeStep Entry) :
    Leveled (Names (steps ++ [next])) (scopes.step next).declarations := by
  have level := counted.height
  have level' := (counted.step next).1.height
  cases next with
  | enter =>
    refine .cons (fun name => iff_of_false (by simp) ?_)
      (leveled_concat named (by simp [level, heightAfter]) (by simp))
    rintro ⟨count, declaration, lives⟩
    have := ((lives_concat_iff.mp lives).resolve_right (by simp)).1.le_height
    omega
  | exit =>
    cases opened : scopes.declarations with
    | nil =>
      simp only [step, exit, opened]
      exact .nil
    | cons scope outer =>
      rw [opened] at named
      cases named with | cons _ further
      simp only [step, exit, opened] at level' ⊢
      exact leveled_concat further (Nat.le_of_eq level') (by simp)
  | put entry =>
    cases entry with
    | declared name declaration =>
      cases opened : scopes.declarations with
      | nil =>
        simp only [step, declare?, opened, Option.getD_none]
        exact .nil
      | cons scope outer =>
        obtain ⟨scope', result, names⟩ := step_declared opened name declaration
        rw [opened, length_cons] at level
        rw [result, length_cons] at level'
        rw [opened] at named
        rw [result]
        cases named with | cons here further
        refine .cons (fun other => ?_)
          (leveled_concat further (by omega) fun _ _ _ => Nat.lt_of_succ_le (Nat.le_of_eq level))
        rw [names, here]
        simp only [lives_concat_iff]
        constructor
        · rintro (⟨count, declaration', lives⟩ | rfl)
          · exact ⟨count, declaration', .inl ⟨lives, Nat.le_of_eq level'⟩⟩
          · exact ⟨_, declaration, .inr ⟨rfl, level, rfl⟩⟩
        · rintro ⟨count, declaration', ⟨lives, -⟩ | ⟨put, -, -⟩⟩
          · exact .inl ⟨count, declaration', lives⟩
          · cases put
            exact .inr rfl
    | typed name type =>
      have same : (scopes.step (.put (.typed name type))).declarations = scopes.declarations := by
        rw [step, setType]
        split <;> rfl
      rw [same] at level' ⊢
      exact leveled_concat named (Nat.le_of_eq level') (by simp)

/-- The scopes after a history have the names that it says. -/
theorem leveled_run (steps : List (ScopeStep Entry)) :
    Leveled (Names steps) (run steps).declarations := by
  induction steps using List.reverseRecOn with
  | nil => exact .nil
  | append_singleton steps next ih =>
    rw [run_concat]
    exact leveled_step (counted_run steps) ih next

/-- The greatest height is one that the scopes had, and no height was greater. -/
theorem maxDepth_run (steps : List (ScopeStep Entry)) :
    (∀ before, before <+: steps → (run before).declarations.length ≤ (run steps).maxDepth) ∧
      ∃ before, before <+: steps ∧ (run before).declarations.length = (run steps).maxDepth := by
  induction steps using List.reverseRecOn with
  | nil =>
    refine ⟨fun before early => ?_, [], prefix_refl _, rfl⟩
    rw [prefix_nil.mp early]
    exact Nat.le_refl _
  | append_singleton steps next ih =>
    obtain ⟨most, deepest, early, attained⟩ := ih
    have grown := ((counted_run steps).step next).2
    rw [← run_concat] at grown
    refine ⟨fun before early => ?_, ?_⟩
    · rcases prefix_concat_iff.mp early with rfl | early
      · exact grown ▸ Nat.le_max_right _ _
      · exact grown ▸ Nat.le_trans (most before early) (Nat.le_max_left _ _)
    · rcases Nat.le_total (run (steps ++ [next])).declarations.length (run steps).maxDepth with le | le
      · refine ⟨deepest, early.trans (prefix_append _ _), ?_⟩
        rw [attained, grown, Nat.max_eq_left le]
      · exact ⟨steps ++ [next], prefix_refl _, by rw [grown, Nat.max_eq_right le]⟩

/-- A scope that was opened and only added to is closed without a trace. -/
theorem exit_of_inside {declarations : List (List (String × Declaration))}
    {types : List (List (String × String))} {names : List (String × Declaration)}
    {found : List (String × String)}
    (declared : scopes.declarations = addInnermost names ([] :: declarations))
    (typed : scopes.types = addInnermost found ([] :: types)) :
    scopes.exit.declarations = declarations ∧ scopes.exit.types = types := by
  simp [exit, declared, typed, addInnermost]

/-- Steps in pairs only add to the innermost scope. -/
theorem foldl_balanced (balanced : Balanced steps) (scopes : Scopes) : ∃ names types,
    (steps.foldl step scopes).declarations = addInnermost names scopes.declarations ∧
      (steps.foldl step scopes).types = addInnermost types scopes.types := by
  induction balanced generalizing scopes with
  | nil => exact ⟨[], [], by simp⟩
  | put entry _ ih =>
    obtain ⟨names, types, put⟩ := step_put scopes entry
    obtain ⟨names', types', declared, typed⟩ := ih (scopes.step (.put entry))
    refine ⟨names' ++ names, types' ++ types, ?_⟩
    rw [foldl_cons, declared, typed, put, addInnermost_append, addInnermost_append]
    exact ⟨rfl, rfl⟩
  | enclosed _ _ inner rest =>
    obtain ⟨_, _, declared, typed⟩ := inner scopes.enter
    obtain ⟨closed, closed'⟩ := exit_of_inside declared typed
    obtain ⟨names, types, added⟩ := rest _
    rw [closed, closed'] at added
    exact ⟨names, types, by rwa [cons_append, foldl_cons, foldl_append]⟩

/-- Scopes keep their stacks and counters together, also where scopes are closed too often. Both
stacks are as high as scopes were opened and not closed; the scopes opened and the greatest height are
counted; a declaration is refused exactly if no scope is open or the name is taken in the innermost
one, having been declared there since it was opened, and then changes nothing; and steps from opening a
scope to closing it change the meaning of no name. -/
theorem run_consistent (steps : List (ScopeStep Entry)) :
    (run steps).types.length = (run steps).declarations.length ∧
    (run steps).declarations.length = height steps ∧ (run steps).entered = steps.count .enter ∧
    (run steps).declarations.length + (run steps).exited = (run steps).entered ∧
    (∀ before, before <+: steps → (run before).declarations.length ≤ (run steps).maxDepth) ∧
    (∃ before, before <+: steps ∧ (run before).declarations.length = (run steps).maxDepth) ∧
    (∀ name declaration, ((run steps).declare? name declaration = none ↔
      (run steps).declarations = [] ∨ ∃ scope outer, (run steps).declarations = scope :: outer ∧
        ∃ entry ∈ scope, entry.1 = name) ∧
      ((run steps).declare? name declaration = none ↔ height steps = 0 ∨
        ∃ count declared, Lives steps (height steps) count (.declared name declared)) ∧
      ((run steps).declare? name declaration = none →
        run (steps ++ [.put (.declared name declaration)]) = run steps)) ∧
    ∀ inner, Balanced inner → ∀ name,
      (run (steps ++ .enter :: inner ++ [.exit])).lookup name = (run steps).lookup name ∧
      (run (steps ++ .enter :: inner ++ [.exit])).typeOf name = (run steps).typeOf name := by
  obtain ⟨types, level, entered, counts, _⟩ := counted_run steps
  obtain ⟨most, attained⟩ := maxDepth_run steps
  refine ⟨types, level, entered, counts, most, attained,
    fun name declaration => ⟨declare?_eq_none_iff, ?_, ?_⟩, ?_⟩
  · have named := leveled_run steps
    rw [declare?_eq_none_iff, ← level]
    cases opened : (run steps).declarations with
    | nil => simp
    | cons scope outer =>
      rw [opened] at named
      cases named with | cons here _
      simpa using here name
  · intro refused
    rw [run_concat, step, refused, Option.getD_none]
  · intro inner balanced name
    obtain ⟨_, _, declared, typed⟩ := foldl_balanced balanced (run steps).enter
    obtain ⟨closed, closed'⟩ := exit_of_inside declared typed
    have result : run (steps ++ .enter :: inner ++ [.exit]) =
        (inner.foldl step (run steps).enter).exit := by
      rw [run_concat, run, foldl_append]
      rfl
    rw [result, lookup, lookup, typeOf, typeOf, closed, closed']
    exact ⟨rfl, rfl⟩

end Scopes

end ClassLang
