import ClassLang.Grammar
import ClassLang.Proofs.Printing.Layout

/-! # Readings that succeed where there is room

`Reading.Reads reading words rest levels need good` says what a reading of the words `words` before
`rest` does in a grammar with a number of levels left. If there is room for the levels that it needs,
it yields a value that is `good` and stops before `rest`. If there is not, it is nested too deeply. No
other fault is possible. Readings in a row need the room that each of them needs, and a nested reading
needs one more level. -/

namespace ClassLang

open Word List

variable {reader after : Reader}

/-- The words not yet read. -/
def Reader.words (reader : Reader) : List Word := reader.tokens.map Token.word

namespace Word

variable {condition : Word → Prop}

/-- The line of the last of some words, or a given line where there are none. -/
def lastLine (line : Nat) (words : List Word) : Nat := words.foldl (fun _ word => word.line) line

/-- Whether words start with one that satisfies a condition. -/
def Starts (condition : Word → Prop) (words : List Word) : Prop :=
  ∃ word tail, words = word :: tail ∧ condition word

/-- The first word decides. -/
theorem starts_cons {word : Word} {words : List Word} (holds : condition word) :
    Starts condition (word :: words) :=
  ⟨word, words, rfl, holds⟩

/-- Further words change nothing. -/
theorem Starts.append {first : List Word} (starts : Starts condition first) (second : List Word) :
    Starts condition (first ++ second) := by
  obtain ⟨word, tail, rfl, holds⟩ := starts
  exact ⟨word, tail ++ second, rfl, holds⟩

/-- A weaker condition holds too. -/
theorem Starts.mono {condition' : Word → Prop} {words : List Word} (starts : Starts condition words)
    (weaker : ∀ word, condition word → condition' word) : Starts condition' words := by
  obtain ⟨word, tail, rfl, holds⟩ := starts
  exact ⟨word, tail, rfl, weaker word holds⟩

/-- Later words decide. -/
theorem lastLine_append (line : Nat) (first second : List Word) :
    lastLine line (first ++ second) = lastLine (lastLine line first) second :=
  foldl_append

end Word

/-- A reader that has a word before it has its token. -/
theorem Reader.eq_of_words {word : Word} {rest : List Word} (next : reader.words = word :: rest) :
    ∃ token more, reader = ⟨token :: more, reader.last, reader.depth⟩ ∧ token.word = word ∧
      more.map Token.word = rest := by
  obtain ⟨tokens, last, depth⟩ := reader
  cases tokens with
  | nil => cases next
  | cons token more =>
    obtain ⟨head, tail⟩ := cons.inj next
    exact ⟨token, more, rfl, head, tail⟩

/-- There is a word for every token. -/
theorem Reader.length_words (reader : Reader) : reader.words.length = reader.tokens.length :=
  length_map _

/-- A reader stands behind words that another one stands before, at the same depth. -/
structure Reader.Past (words rest : List Word) (reader after : Reader) : Prop where
  left : after.words = rest
  /-- The last word that was read ends on its line. -/
  line : after.last.line = Word.lastLine reader.last.line words
  depth : after.depth = reader.depth

/-- Words are passed one after another. -/
theorem Reader.Past.trans {between : Reader} {words words' rest rest' : List Word}
    (first : reader.Past words rest between) (second : between.Past words' rest' after) :
    reader.Past (words ++ words') rest' after :=
  ⟨second.left, by rw [second.line, first.line, lastLine_append],
    second.depth.trans first.depth⟩

namespace Reading

variable {α β : Type} {reading : Reading α} {next : α → Reading β} {value : α}
  {post : α → Reader → Prop}

/-! ## What a reading gives -/

/-- Whether a reading gives a value and a reader with a property if there is room for a number of
levels, and nests too deeply if there is not. -/
def Gives (reading : Reading α) (reader : Reader) (need : Nat) (post : α → Reader → Prop) : Prop :=
  match reading reader with
  | .ok value after => reader.depth + need ≤ maxDepth ∧ post value after
  | .error fault _ => fault.cause = .tooDeep ∧ maxDepth < reader.depth + need

/-- A reading that succeeds gives its value. -/
theorem gives_of_eq (run : reading reader = .ok value after) (room : reader.depth ≤ maxDepth)
    (holds : post value after) : Gives reading reader 0 post := by
  unfold Gives
  rw [run]
  exact ⟨room, holds⟩

/-- What follows a success runs on its value. -/
theorem bind_of_ok (run : reading reader = .ok value after) :
    (reading >>= next) reader = next value after := by
  change EStateM.bind reading next reader = _
  unfold EStateM.bind
  rw [run]

/-- Readings in a row, the first of which fails. -/
theorem bind_of_error {fault : Fault} (run : reading reader = .error fault after) :
    (reading >>= next) reader = .error fault after := by
  change EStateM.bind reading next reader = _
  unfold EStateM.bind
  rw [run]

/-- Readings in a row need the room that each of them needs. -/
theorem Gives.bind {need need' : Nat} {post : β → Reader → Prop}
    (gives : Gives reading reader need fun value after =>
      after.depth = reader.depth ∧ Gives (next value) after need' post) :
    Gives (reading >>= next) reader (max need need') post := by
  unfold Gives at *
  cases run : reading reader with
  | ok value after =>
    rw [run] at gives
    obtain ⟨room, same, second⟩ := gives
    rw [bind_of_ok run]
    cases run' : next value after with
    | ok value' after' =>
      rw [run', same] at second
      exact ⟨by omega, second.2⟩
    | error fault after' =>
      rw [run', same] at second
      exact ⟨second.1, by omega⟩
  | error fault after =>
    rw [run] at gives
    rw [bind_of_error run]
    exact ⟨gives.1, by omega⟩

/-- A reading gives what follows from what it gives. -/
theorem Gives.mono {need : Nat} {post' : α → Reader → Prop} (gives : Gives reading reader need post)
    (weaker : ∀ value after, post value after → post' value after) :
    Gives reading reader need post' := by
  unfold Gives at *
  cases run : reading reader with
  | ok value after =>
    rw [run] at gives
    exact ⟨gives.1, weaker value after gives.2⟩
  | error fault after =>
    rw [run] at gives
    exact gives

/-- Returning to the depth from before changes nothing else. -/
theorem restoringDepth_eq (reading : Reading α) (reader : Reader) : restoringDepth reading reader =
    match reading reader with
    | .ok value after => .ok value { after with depth := reader.depth }
    | .error fault after => .error fault { after with depth := reader.depth } := by
  change EStateM.bind (tryFinally' reading _) _ reader = _
  simp only [EStateM.bind, tryFinally']
  cases reading reader <;> rfl

/-- Returning to the depth from before needs no room. -/
theorem Gives.restoringDepth {reading : Reading α} {reader : Reader} {need : Nat}
    {post : α → Reader → Prop} (gives : Gives reading reader need fun value after =>
      post value { after with depth := reader.depth }) :
    Gives (restoringDepth reading) reader need post := by
  unfold Gives at *
  rw [restoringDepth_eq]
  cases run : reading reader with
  | ok value after =>
    rw [run] at gives
    exact gives
  | error fault after =>
    rw [run] at gives
    exact gives

/-- Entering one more level fails at the limit and changes only the depth below it. -/
theorem deepen_eq (reader : Reader) : (deepen : Reading _) reader =
    if reader.depth < maxDepth then .ok () { reader with depth := reader.depth + 1 }
    else .error ⟨.tooDeep, reader.here⟩ reader := by
  change (if reader.depth < maxDepth then set { reader with depth := reader.depth + 1 }
    else throw ⟨.tooDeep, reader.here⟩ : Reading Unit) reader = _
  split <;> rfl

/-- Entering a level needs room for it and for what follows. -/
theorem gives_deepen {next : Reading α} {need : Nat} (room : reader.depth ≤ maxDepth)
    (gives : reader.depth < maxDepth →
      Gives next { reader with depth := reader.depth + 1 } need post) :
    Gives (do deepen; next) reader (need + 1) post := by
  -- at the greatest depth there is no room, whatever follows
  by_cases below : reader.depth < maxDepth
  · have run : (deepen : Reading _) reader = .ok () { reader with depth := reader.depth + 1 } := by
      rw [deepen_eq, if_pos below]
    have after := gives below
    unfold Gives at *
    rw [bind_of_ok run]
    cases run' : next { reader with depth := reader.depth + 1 } with
    | ok value after' =>
      rw [run'] at after
      obtain ⟨fits, holds⟩ := after
      exact ⟨by rw [← Nat.add_assoc, Nat.add_right_comm]; exact fits, holds⟩
    | error fault after' =>
      rw [run'] at after
      obtain ⟨deep, beyond⟩ := after
      change maxDepth < reader.depth + 1 + need at beyond
      exact ⟨deep, by omega⟩
  · have run : (deepen : Reading _) reader = .error ⟨.tooDeep, reader.here⟩ reader := by
      rw [deepen_eq, if_neg below]
    unfold Gives
    rw [bind_of_error run]
    exact ⟨rfl, by omega⟩

/-! ## Reading words -/

/-- Whether a number of levels of the grammar goes beyond the greatest depth, which a depth does
not. -/
def Covers (levels depth : Nat) : Prop := depth ≤ maxDepth ∧ maxDepth < depth + levels

/-- Whether a reading of words before the rest yields something good if there is room for a number of
levels, and nests too deeply if there is not, in a grammar with enough levels. -/
def Reads (reading : Reading α) (words rest : List Word) (levels need : Nat) (good : α → Prop) :
    Prop :=
  ∀ reader : Reader, reader.words = words ++ rest → Covers levels reader.depth →
    Gives reading reader need fun value after => good value ∧ reader.Past words rest after

variable {reading : Reading α} {words words' rest : List Word} {word : Word} {good : α → Prop}
  {levels need need' : Nat} {kind : Kind}

/-- A grammar has enough levels behind words if it has before them. -/
theorem Covers.past {reader after : Reader} (covers : Covers levels reader.depth)
    (past : reader.Past words rest after) : Covers levels after.depth := by
  rwa [past.depth]

/-- What is good may be weakened. -/
theorem Reads.mono {good' : α → Prop} (reads : Reads reading words rest levels need good)
    (weaker : ∀ value, good value → good' value) : Reads reading words rest levels need good' :=
  fun reader start covers => (reads reader start covers).mono fun value _ holds =>
    ⟨weaker value holds.1, holds.2⟩

/-- A reading that passes words in one step needs no room. -/
theorem reads_of_eq (step : ∀ reader : Reader, reader.words = words ++ rest → ∃ value after,
      reading reader = .ok value after ∧ good value ∧ reader.Past words rest after) :
    Reads reading words rest levels 0 good := by
  intro reader start covers
  obtain ⟨value, after, run, holds⟩ := step reader start
  exact gives_of_eq run covers.1 holds

/-- A value is read from no words. -/
theorem reads_pure (holds : good value) : Reads (pure value) [] rest levels 0 good :=
  reads_of_eq fun reader start => ⟨value, reader, rfl, holds, start, rfl, rfl⟩

namespace Reads

variable {good' : β → Prop}

/-- What follows words that are read runs on what they are read as. -/
theorem gives_bind {post : β → Reader → Prop} (first : Reads reading words rest levels need good)
    (start : reader.words = words ++ rest) (covers : Covers levels reader.depth)
    (second : ∀ value after, good value → reader.Past words rest after →
      Gives (next value) after need' post) :
    Gives (reading >>= next) reader (max need need') post :=
  Gives.bind ((first reader start covers).mono fun value after holds =>
    ⟨holds.2.depth, second value after holds.1 holds.2⟩)

/-- The same behind words that need no room. -/
theorem gives_bind_free {post : β → Reader → Prop} (first : Reads reading words rest levels 0 good)
    (start : reader.words = words ++ rest) (covers : Covers levels reader.depth)
    (second : ∀ value after, good value → reader.Past words rest after →
      Gives (next value) after need post) : Gives (reading >>= next) reader need post := by
  have gives := first.gives_bind start covers second
  rwa [Nat.zero_max] at gives

/-- Words in a row are read by readings in a row. -/
theorem bind (first : Reads reading words (words' ++ rest) levels need good)
    (second : ∀ value, good value → Reads (next value) words' rest levels need' good') :
    Reads (reading >>= next) (words ++ words') rest levels (max need need') good' := by
  intro reader start covers
  rw [append_assoc] at start
  refine first.gives_bind start covers fun value between holds past => ?_
  refine (second value holds between past.left (covers.past past)).mono ?_
  rintro value after ⟨holds', past'⟩
  exact ⟨holds', past.trans past'⟩

/-- Words that need no room are read first. -/
theorem bind_words (first : Reads reading words (words' ++ rest) levels 0 good)
    (second : ∀ value, good value → Reads (next value) words' rest levels need good') :
    Reads (reading >>= next) (words ++ words') rest levels need good' := by
  have all := first.bind second
  rwa [Nat.zero_max] at all

/-- One word is read first. -/
theorem bind_word (first : Reads reading [word] (words ++ rest) levels 0 good)
    (second : ∀ value, good value → Reads (next value) words rest levels need good') :
    Reads (reading >>= next) (word :: words) rest levels need good' :=
  first.bind_words second

/-- Nothing is read first. -/
theorem bind_nothing (first : Reads reading [] (words ++ rest) levels 0 good)
    (second : ∀ value, good value → Reads (next value) words rest levels need good') :
    Reads (reading >>= next) words rest levels need good' :=
  first.bind_words second

/-- Words that need no room are read afterwards. -/
theorem bind_free (first : Reads reading words (words' ++ rest) levels need good)
    (second : ∀ value, good value → Reads (next value) words' rest levels 0 good') :
    Reads (reading >>= next) (words ++ words') rest levels need good' := by
  have all := first.bind second
  rwa [Nat.max_zero] at all

section Last

variable {form : α → β} (first : Reads reading words rest levels need good)

include first

/-- Nothing is read afterwards. -/
theorem bind_last (second : ∀ value, good value → Reads (next value) [] rest levels 0 good') :
    Reads (reading >>= next) words rest levels need good' := by
  have all : Reads (reading >>= next) (words ++ []) rest levels need good' := bind_free first second
  rwa [append_nil] at all

/-- A value is made of what is read. -/
theorem bind_pure (holds : ∀ value, good value → good' (form value)) :
    Reads (do return form (← reading)) words rest levels need good' :=
  first.bind_last fun value found => reads_pure (holds value found)

/-- What is read is mapped to another form. -/
theorem map (holds : ∀ value, good value → good' (form value)) :
    Reads (form <$> reading) words rest levels need good' := by
  rw [map_eq_pure_bind]
  exact first.bind_pure holds

end Last

/-- A reading one level deeper needs room for one more level. -/
theorem nested (inner : Reads reading words rest levels need good) :
    Reads (nested reading) words rest (levels + 1) (need + 1) good := by
  intro reader start covers
  refine Gives.restoringDepth (gives_deepen covers.1 fun below => ?_)
  have covers' : Covers levels (reader.depth + 1) := ⟨below, lt_of_lt_of_eq covers.2 (by omega)⟩
  refine (inner { reader with depth := reader.depth + 1 } start covers').mono ?_
  rintro value after ⟨holds, past⟩
  exact ⟨holds, past.left, past.line, rfl⟩

end Reads

/-- Without levels there are no depths. -/
theorem reads_zero : Reads reading words rest 0 need good :=
  fun _ _ covers => absurd covers.2 (Nat.not_lt.mpr covers.1)

/-! ## Single words -/

/-- A malformed token is a fault. -/
theorem peek_malformed {token : Token} (bad : token.kind = .malformed) (more : List Token)
    (last : Position) (depth : Nat) : (peek : Reading _) ⟨token :: more, last, depth⟩ =
      .error ⟨.lexical token.text, token.position⟩ ⟨token :: more, last, depth⟩ := by
  change (if token.kind = .malformed then throw ⟨.lexical token.text, token.position⟩
    else pure token : Reading Token) _ = _
  rw [if_pos bad]
  rfl

section Token

variable {token : Token} (well : token.kind ≠ .malformed) (more : List Token) (last : Position)
  (depth : Nat)

include well

/-- A token is looked at. -/
theorem peek_cons : (peek : Reading _) ⟨token :: more, last, depth⟩ =
    .ok token ⟨token :: more, last, depth⟩ := by
  change (if token.kind = .malformed then throw ⟨.lexical token.text, token.position⟩
    else pure token : Reading Token) _ = _
  rw [if_neg well]
  rfl

/-- A token is taken. -/
theorem take_cons : (take : Reading _) ⟨token :: more, last, depth⟩ =
    .ok token ⟨more, token.position, depth⟩ := by
  rw [take, bind_of_ok (peek_cons well more last depth)]
  rfl

/-- A token of its own kind is taken. -/
theorem expect_cons : (expect token.kind : Reading _) ⟨token :: more, last, depth⟩ =
    .ok token ⟨more, token.position, depth⟩ := by
  rw [expect, bind_of_ok (peek_cons well more last depth), if_pos rfl, take_cons well]

end Token

/-- The next word is read. -/
theorem reads_take (well : word.kind ≠ .malformed) :
    Reads take [word] rest levels 0 fun token => token.word = word := by
  refine reads_of_eq fun reader start => ?_
  obtain ⟨token, more, eq, rfl, rfl⟩ := reader.eq_of_words start
  rw [eq]
  exact ⟨token, _, take_cons well more _ _, rfl, rfl, rfl, rfl⟩

/-- A word of the kind that is needed is read. -/
theorem reads_expect (same : word.kind = kind) (well : kind ≠ .malformed) :
    Reads (expect kind) [word] rest levels 0 fun token => token.word = word := by
  refine reads_of_eq fun reader start => ?_
  obtain ⟨token, more, eq, rfl, rfl⟩ := reader.eq_of_words start
  cases same
  rw [eq]
  exact ⟨token, _, expect_cons well more _ _, rfl, rfl, rfl, rfl⟩

/-- A symbol is read. -/
theorem reads_symbol (line : Nat) (sign : Symbol) :
    Reads (expect (.symbol sign)) [symbol line sign] rest levels 0
      (·.word = symbol line sign) :=
  reads_expect rfl nofun

/-- A keyword is read. -/
theorem reads_keyword (line : Nat) (keyword : Keyword) :
    Reads (expect (.keyword keyword)) [Word.keyword line keyword] rest levels 0
      (·.word = Word.keyword line keyword) :=
  reads_expect rfl nofun

/-- The position is looked up. -/
theorem reads_here : Reads here [] rest levels 0 fun _ => True :=
  reads_of_eq fun reader start => ⟨_, reader, rfl, trivial, start, rfl, rfl⟩

/-- The next word is looked at. -/
theorem reads_peek (well : word.kind ≠ .malformed) :
    Reads peek [] (word :: rest) levels 0 fun token => token.word = word := by
  refine reads_of_eq fun reader start => ?_
  obtain ⟨token, more, eq, rfl, rfl⟩ := reader.eq_of_words start
  rw [eq]
  exact ⟨token, _, peek_cons well more _ _, rfl, rfl, rfl, rfl⟩

/-- What the kind of the next word decides is read as decided for this kind. -/
theorem reads_here_peek {next : Position → Token → Reading α} (same : word.kind = kind)
    (well : kind ≠ .malformed) (decided : ∀ position token, token.kind = kind →
      Reads (next position token) (word :: words) rest levels need good) :
    Reads (do let position ← here; let token ← peek; next position token) (word :: words) rest levels
      need good := by
  subst same
  refine Reads.bind_nothing reads_here fun position _ => ?_
  refine Reads.bind_nothing (reads_peek well) fun token found => ?_
  exact decided position token (congrArg kind found)

/-- A condition on the next word is looked up. -/
theorem reads_check {condition : Token → Bool} {holds : Bool}
    (same : ∀ token : Token, token.word = word → condition token = holds) :
    Reads (check condition) [] (word :: rest) levels 0 (· = holds) := by
  refine reads_of_eq fun reader start => ?_
  obtain ⟨token, more, eq, rfl, rfl⟩ := reader.eq_of_words start
  rw [eq]
  exact ⟨condition token, _, rfl, same token rfl, rfl, rfl, rfl⟩

/-- The kind of the next word is looked up. -/
theorem reads_checkKind (kind : Kind) :
    Reads (checkKind kind) [] (word :: rest) levels 0 (· = decide (word.kind = kind)) :=
  reads_check fun _ head => by rw [← head]; rfl

/-- Whether the next word ends items is looked up. -/
theorem reads_checkEnds {ends : Kind → Bool} {holds : Bool} (same : ends word.kind = holds) :
    Reads (check fun token => ends token.kind) [] (word :: rest) levels 0 (· = holds) :=
  reads_check fun _ head => by rw [← same, ← head]; rfl

/-- Whether the next token is taken depends on its kind. -/
theorem takeIf_cons (kind : Kind) (token : Token) (more : List Token) (last : Position)
    (depth : Nat) : (takeIf (fun token => token.kind = kind) : Reading _) ⟨token :: more, last, depth⟩ =
      if token.kind = kind then .ok (some token) ⟨more, token.position, depth⟩
      else .ok none ⟨token :: more, last, depth⟩ := by
  change (if decide (token.kind = kind) = true then do drop; return some token
    else return none : Reading (Option Token)) _ = _
  by_cases same : token.kind = kind
  · rw [if_pos (decide_eq_true same), if_pos same]
    rfl
  · rw [if_neg (mt of_decide_eq_true same), if_neg same]
    rfl

/-- A word that satisfies a condition on kinds is read. -/
theorem reads_takeIf (same : word.kind = kind) :
    Reads (takeIf fun token => token.kind = kind) [word] rest levels 0 (·.isSome) := by
  refine reads_of_eq fun reader start => ?_
  obtain ⟨token, more, eq, rfl, rfl⟩ := reader.eq_of_words start
  rw [eq, takeIf_cons, if_pos (show token.kind = kind from same)]
  exact ⟨some token, _, rfl, rfl, rfl, rfl, rfl⟩

/-- A word of another kind stays. -/
theorem reads_takeIf_other (other : word.kind ≠ kind) :
    Reads (takeIf fun token => token.kind = kind) [] (word :: rest) levels 0 (· = none) := by
  refine reads_of_eq fun reader start => ?_
  obtain ⟨token, more, eq, rfl, rfl⟩ := reader.eq_of_words start
  rw [eq, takeIf_cons, if_neg (show token.kind ≠ kind from other)]
  exact ⟨none, _, rfl, rfl, rfl, rfl, rfl⟩

/-- A value is yielded before a word of a kind that is not skipped. -/
theorem reads_skipIf (stop : Starts (·.kind ≠ kind) rest) (holds : good value) :
    Reads (do skipIf kind; return value) [] rest levels 0 good := by
  obtain ⟨word, tail, rfl, other⟩ := stop
  have skipped : Reads (skipIf kind) [] (word :: tail) levels 0 fun _ => True :=
    Reads.bind_pure (reads_takeIf_other other) fun _ _ => trivial
  exact Reads.bind_nothing skipped fun _ _ => reads_pure holds

/-- What a word announces is read after it. -/
theorem reads_optional (same : word.kind = kind) (well : kind ≠ .malformed)
    (following : Reads reading words rest levels need good) :
    Reads (optional kind reading) (word :: words) rest levels need fun value =>
      ∃ v ∈ value, good v := by
  refine Reads.bind_nothing (reads_checkKind kind) ?_
  rintro _ rfl
  rw [if_pos (decide_eq_true same)]
  exact Reads.bind_word (reads_expect same well) fun _ _ =>
    following.bind_pure fun value holds => ⟨value, rfl, holds⟩

/-- What no word announces is not read. -/
theorem reads_optional_other (other : word.kind ≠ kind) :
    Reads (optional kind reading) [] (word :: rest) levels 0 (· = none) := by
  refine Reads.bind_nothing (reads_checkKind kind) ?_
  rintro _ rfl
  rw [if_neg (mt of_decide_eq_true other)]
  exact reads_pure rfl

/-! ## Repetition -/

section Repetition

variable {ends : Kind → Bool} {item : Reading α} {items : List α → Prop}

/-- Whether items are read from words before the rest, given that the budget counts the words. -/
def ReadsWithin (ends : Kind → Bool) (item : Reading α) (words rest : List Word) (levels need : Nat)
    (items : List α → Prop) : Prop :=
  ∀ budget, words.length ≤ budget →
    Reads (manyUntilWithin ends item budget) words rest levels need items

/-- Items end before a word that ends them. -/
theorem readsWithin_nil (stop : ends word.kind = true) (holds : items []) :
    ReadsWithin ends item [] (word :: rest) levels 0 items := by
  intro budget _
  unfold manyUntilWithin
  refine Reads.bind_nothing (reads_checkEnds stop) ?_
  rintro _ rfl
  exact reads_pure holds

/-- An item that does not start with a word that ends the items is read before the others. -/
theorem ReadsWithin.cons {others : List α → Prop}
    (head : Starts (fun word => ends word.kind = false) words)
    (first : Reads item words (words' ++ rest) levels need good)
    (later : ReadsWithin ends item words' rest levels need' others)
    (holds : ∀ value values, good value → others values → items (value :: values)) :
    ReadsWithin ends item (words ++ words') rest levels (max need need') items := by
  obtain ⟨word, tail, rfl, go⟩ := head
  intro budget enough
  unfold manyUntilWithin
  refine Reads.bind_nothing (reads_checkEnds go) ?_
  rintro _ rfl
  rw [if_neg Bool.false_ne_true]
  refine Reads.bind first fun value found => ?_
  -- the item took up a word, so the budget is not used up and still counts the words left
  rw [length_append, length_cons] at enough
  cases budget with
  | zero => omega
  | succ budget =>
    exact (later budget (by omega)).bind_pure fun values founds => holds value values found founds

/-- The tokens left are enough of a budget. -/
theorem ReadsWithin.manyUntil (reads : ReadsWithin ends item words rest levels need items) :
    Reads (manyUntil ends item) words rest levels need items := by
  intro reader start
  refine reads _ ?_ reader start
  rw [← reader.length_words, start, length_append]
  exact Nat.le_add_right _ _

end Repetition

/-! ## Items with commas between them -/

section Commas

variable {δ : Type} {erase : α → δ} {spelled : α → List Word} {nesting : α → Nat}
  {item : Reading α} {fits : Word → Prop} {line : Nat} {close : Symbol} {first : α} {others : List α}

/-- What follows an item is a comma or what follows all items. -/
theorem starts_further (items : List α) (comma : fits (symbol line .comma))
    (stop : Starts fits rest) :
    Starts fits
      ((items.flatMap fun value => symbol line .comma :: spelled value) ++ rest) := by
  cases items with
  | nil => exact stop
  | cons => exact starts_cons comma

variable (line close) (different : close ≠ .comma) (comma : fits (symbol line .comma))
  (closing : fits (symbol line close))

include different comma closing

/-- Items behind commas are read, if each is read before a comma and before the closing sign. -/
theorem readsWithin_further (each : ∀ value ∈ others, ∀ rest, Starts fits rest →
      Reads item (spelled value) rest levels (nesting value) (erase · = erase value)) :
    ReadsWithin (· = .symbol close) (do let _ ← expect (.symbol .comma); item)
      (others.flatMap fun value => symbol line .comma :: spelled value)
      (symbol line close :: rest) levels ((others.map nesting).foldr max 0)
      (·.map erase = others.map erase) := by
  induction others with
  | nil => exact readsWithin_nil (decide_eq_true rfl) rfl
  | cons value others ih =>
    obtain ⟨here, later⟩ := forall_mem_cons.mp each
    have signs : Kind.symbol .comma ≠ .symbol close :=
      fun same => different (Kind.symbol.inj same).symm
    refine ReadsWithin.cons (starts_cons (decide_eq_false signs))
      (Reads.bind_word (reads_symbol line .comma) fun _ _ =>
        here _ (starts_further others comma (starts_cons closing))) (ih later) ?_
    intro value values same sames
    rw [map_cons, map_cons, same, sames]

variable (each : ∀ value ∈ first :: others, ∀ rest, Starts fits rest →
  Reads item (spelled value) rest levels (nesting value) (erase · = erase value))

include each

/-- Items with commas between them are read together with the closing sign. -/
theorem reads_closed :
    Reads (closed (.symbol .comma) (.symbol close) item)
      (spelled first ++ (others.flatMap fun value => symbol line .comma :: spelled value) ++
        [symbol line close]) rest levels (((first :: others).map nesting).foldr max 0)
      (·.map erase = (first :: others).map erase) := by
  obtain ⟨here, later⟩ := forall_mem_cons.mp each
  refine Reads.bind_free (Reads.bind (here _ (starts_further others comma
    (starts_cons closing))) fun value same => ?_) fun _ founds =>
      (reads_symbol line close).bind_pure fun _ _ => founds
  refine (readsWithin_further line close different comma closing later).manyUntil.bind_pure
    fun values sames => ?_
  rw [map_cons, map_cons, same, sames]

/-- The same where there may be no items at all, if the first does not start with the closing sign. -/
theorem reads_listed (head : Starts (·.kind ≠ .symbol close) (spelled first)) :
    Reads (listed (.symbol .comma) (.symbol close) item)
      (spelled first ++ (others.flatMap fun value => symbol line .comma :: spelled value) ++
        [symbol line close]) rest levels (((first :: others).map nesting).foldr max 0)
      (·.map erase = (first :: others).map erase) := by
  have closed : Reads _ _ rest _ _ _ := reads_closed line close different comma closing each
  obtain ⟨next, tail, starts, other⟩ := head
  rw [starts] at closed ⊢
  refine Reads.bind_nothing (reads_checkKind (.symbol close)) ?_
  rintro _ rfl
  dsimp only
  rw [if_neg (mt of_decide_eq_true other)]
  exact closed

end Commas

end Reading

end ClassLang
