import ClassLang.Fault
import ClassLang.Token

/-! # Reading tokens

A reader holds the tokens not yet read, the position of the last one read, and how deeply the
construct being read is nested. A reading either yields a value or fails with a fault; in both cases
it leaves a reader behind. Readings are written in terms of steps that look at the reader, change it or
fail, so that the same text can also be run with a record of what it does. -/

namespace ClassLang

/-- The state of reading. -/
structure Reader where
  /-- The tokens not yet read. -/
  tokens : List Token
  /-- The position of the last token read. -/
  last : Position
  /-- How many constructs enclose the one being read. -/
  depth : Nat
  deriving DecidableEq, Repr

/-- A reader before the first token. -/
def Reader.ofTokens (tokens : List Token) : Reader := ⟨tokens, Position.start, 0⟩

/-- The position of the next token, or of the last one read when none is left. -/
def Reader.here (reader : Reader) : Position :=
  match reader.tokens with
  | token :: _ => token.position
  | [] => reader.last

/-- The fault of finding the next token where something else is needed. -/
def Reader.unexpected (reader : Reader) (expected : String) : Fault :=
  match reader.tokens with
  | token :: _ =>
    match token.kind with
    | .malformed => ⟨.lexical token.text, token.position⟩
    | .endOfFile => ⟨.unexpectedEnd, token.position⟩
    | _ => ⟨.unexpectedToken ("'" ++ token.text ++ "'") expected, token.position⟩
  | [] => ⟨.unexpectedEnd, reader.last⟩

/-- A step of reading: it may fail, and leaves a reader behind either way. -/
abbrev Reading := EStateM Fault Reader

namespace Reading

variable {m : Type → Type} [Monad m] [MonadStateOf Reader m] [MonadExceptOf Fault m] [MonadFinally m]
  {α : Type}

/-- The greatest depth to which constructs may be nested. -/
def maxDepth : Nat := 64

/-! ## Single tokens -/

/-- The position of the next token. -/
def here : m Position := return (← get).here

/-- The next token, left in place. A malformed token is a fault. -/
def peek : m Token := do
  let reader ← get
  match reader.tokens with
  | token :: _ =>
    if token.kind = .malformed then throw ⟨.lexical token.text, token.position⟩
    else return token
  | [] => throw ⟨.unexpectedEnd, reader.last⟩

/-- Move past the next token. -/
def drop : m Unit :=
  modify fun reader =>
    match reader.tokens with
    | token :: rest => { reader with tokens := rest, last := token.position }
    | [] => reader

/-- The next token, read. -/
def take : m Token := do
  let token ← peek
  drop
  return token

/-- Whether the next token satisfies a condition; there may be none. -/
def check (condition : Token → Bool) : m Bool := do
  match (← get).tokens with
  | token :: _ => return condition token
  | [] => return false

/-- Whether the next token is of a kind. -/
def checkKind (kind : Kind) : m Bool := check (fun token => token.kind = kind)

/-- Read the next token if it satisfies a condition. -/
def takeIf (condition : Token → Bool) : m (Option Token) := do
  match (← get).tokens with
  | token :: _ =>
    if condition token then
      drop
      return some token
    else return none
  | [] => return none

/-- Fail because the next token is not what is needed. -/
def failExpecting (expected : String) : m α := do
  throw ((← get).unexpected expected)

/-- Read a token of a kind, or fail. -/
def expect (kind : Kind) : m Token := do
  let token ← peek
  if token.kind = kind then take else failExpecting kind.describe

/-- Read a token of a kind if it comes next. -/
def skipIf (kind : Kind) : m Unit := do
  let _ ← takeIf (fun token => token.kind = kind)

/-- If a token of a kind comes next, read it and what follows it. -/
def optional (kind : Kind) (following : m α) : m (Option α) := do
  if ← checkKind kind then
    let _ ← expect kind
    return some (← following)
  else return none

/-! ## Nesting -/

/-- Enter one more level of nesting, up to the limit. -/
def deepen : m Unit := do
  let reader ← get
  if reader.depth < maxDepth then set { reader with depth := reader.depth + 1 }
  else throw ⟨.tooDeep, reader.here⟩

/-- Read something and return to the depth from before, whether or not it fails. -/
def restoringDepth (reading : m α) : m α := do
  let reader ← get
  tryFinally reading (modify fun after => { after with depth := reader.depth })

/-- Read something one level deeper. -/
def nested (reading : m α) : m α := restoringDepth (do deepen; reading)

/-! ## Repetition -/

/-- Read items until a token that ends them comes next. An item that succeeds reads at least one
token, so `budget` need only count the tokens; when it is used up no token is left and the item
fails. -/
def manyUntilWithin (ends : Kind → Bool) (item : m α) (budget : Nat) :
    m (List α) := do
  if ← check (fun token => ends token.kind) then return []
  else
    let first ← item
    match budget with
    | 0 => return [first]
    | budget + 1 => return first :: (← manyUntilWithin ends item budget)

/-- Read items until a token that ends them comes next. -/
def manyUntil (ends : Kind → Bool) (item : m α) : m (List α) := do
  manyUntilWithin ends item (← get).tokens.length

/-- Read one item or more with a token of a kind between them, until a token that ends them. -/
def separated (separator close : Kind) (item : m α) : m (List α) := do
  let first ← item
  let rest ← manyUntil (· = close) (do let _ ← expect separator; item)
  return first :: rest

/-- Read one item or more with a token of a kind between them, and the token that ends them. -/
def closed (separator close : Kind) (item : m α) : m (List α) := do
  let items ← separated separator close item
  let _ ← expect close
  return items

/-- The same where there may be no items at all. -/
def listed (separator close : Kind) (item : m α) : m (List α) := do
  let items ← if ← checkKind close then pure [] else separated separator close item
  let _ ← expect close
  return items

end Reading

end ClassLang
