import InfraGraph.Reading.Lexeme

/-!
# Readers: grammars that remember the furthest failure

A reader reads a value from the front of a list of lexemes. Besides its result it reports the
furthest failure it met on the way, also where another branch went on and succeeded; when the whole
text turns out to be unreadable, that failure is the error. Of two failures at the same place, a
refusal wins over a list of expected tokens, and two such lists are joined.

## Main results

* `result_pure`, `result_bind`, `result_orElse`, `result_optional` — what a reader reads does not
  depend on the failures along the way.
-/

namespace InfraGraph.Reading

open InfraGraph.Text (Span width)

/-- What a reader objects to. -/
inductive Complaint where
  /-- One of these was expected. -/
  | expected (what : List String)
  /-- The token is of the right kind, but it is refused. -/
  | refused (cause : Cause)

/-- Two complaints about the same place. -/
def Complaint.join : Complaint → Complaint → Complaint
  | refused cause, _ => refused cause
  | expected _, refused cause => refused cause
  | expected xs, expected ys => expected (xs ++ ys.filter fun y => !xs.contains y)

/-- A failure to read on. -/
structure Failure (τ : Type) where
  /-- The lexeme that stands there; none at the end of the text. -/
  found : Option (Lexeme τ)
  complaint : Complaint

namespace Failure

variable {τ : Type}

/-- Whether the first failure lies before the second one; the end lies behind every lexeme. -/
def before (f g : Failure τ) : Bool :=
  match f.found, g.found with
  | some x, some y => x.span.start < y.span.start
  | some _, none => true
  | none, _ => false

/-- The further one of two failures, or both in one. -/
def merge (f g : Failure τ) : Failure τ :=
  if f.before g then g
  else if g.before f then f
  else ⟨f.found, f.complaint.join g.complaint⟩

/-- The further one of two failures that may be missing. -/
def furthest : Option (Failure τ) → Option (Failure τ) → Option (Failure τ)
  | none, g => g
  | f, none => f
  | some f, some g => some (f.merge g)

end Failure

/-- What a reader makes of a list of lexemes. -/
structure Outcome (τ α : Type) where
  /-- The value read and the lexemes left over. -/
  result : Option (α × List (Lexeme τ))
  failure : Option (Failure τ)

/-- A rule that reads a value from the front of a list of lexemes. -/
def Reader (τ α : Type) := List (Lexeme τ) → Outcome τ α

namespace Reader

variable {τ α β : Type}

/-- What a reader reads, failures aside. -/
def result (p : Reader τ α) (xs : List (Lexeme τ)) : Option (α × List (Lexeme τ)) := (p xs).result

/-- Reads nothing and gives a value. -/
protected def pure (a : α) : Reader τ α := fun xs => ⟨some (a, xs), none⟩

/-- Reads on with what the first reader gives. -/
protected def bind (p : Reader τ α) (f : α → Reader τ β) : Reader τ β := fun xs =>
  match p xs with
  | ⟨none, failure⟩ => ⟨none, failure⟩
  | ⟨some (a, rest), failure⟩ =>
    let o := f a rest
    ⟨o.result, Failure.furthest failure o.failure⟩

instance : Monad (Reader τ) where
  pure := Reader.pure
  bind := Reader.bind

/-- Reads nothing. -/
def never : Reader τ α := fun _ => ⟨none, none⟩

/-- Reads with the first reader, or from the same place with the second one. -/
protected def orElse (p : Reader τ α) (q : Unit → Reader τ α) : Reader τ α := fun xs =>
  match p xs with
  | ⟨some r, failure⟩ => ⟨some r, failure⟩
  | ⟨none, failure⟩ =>
    let o := q () xs
    ⟨o.result, Failure.furthest failure o.failure⟩

instance : OrElse (Reader τ α) where
  orElse := Reader.orElse

/-- Reads with a reader if it can, and otherwise nothing. -/
def optional (p : Reader τ α) : Reader τ (Option α) := fun xs =>
  match p xs with
  | ⟨some (a, rest), failure⟩ => ⟨some (some a, rest), failure⟩
  | ⟨none, failure⟩ => ⟨some (none, xs), failure⟩

/-! ## What is read -/

@[simp] theorem result_pure (a : α) (xs : List (Lexeme τ)) :
    result (pure a : Reader τ α) xs = some (a, xs) := rfl

@[simp] theorem result_bind (p : Reader τ α) (f : α → Reader τ β) (xs : List (Lexeme τ)) :
    result (p >>= f) xs = (result p xs).bind fun r => result (f r.1) r.2 := by
  change (Reader.bind p f xs).result = _
  rcases h : p xs with ⟨_ | ⟨a, rest⟩, failure⟩ <;> simp [Reader.bind, result, h]

@[simp] theorem result_never (xs : List (Lexeme τ)) : result (never : Reader τ α) xs = none := rfl

@[simp] theorem result_orElse (p : Reader τ α) (q : Unit → Reader τ α) (xs : List (Lexeme τ)) :
    result (p.orElse q) xs = (result p xs).or (result (q ()) xs) := by
  rcases h : p xs with ⟨_ | ⟨a, rest⟩, failure⟩ <;> simp [Reader.orElse, result, h]

@[simp] theorem result_optional (p : Reader τ α) (xs : List (Lexeme τ)) :
    result (optional p) xs =
      match result p xs with
      | some (a, rest) => some (some a, rest)
      | none => some (none, xs) := by
  rcases h : p xs with ⟨_ | ⟨a, rest⟩, failure⟩ <;> simp [optional, result, h]

/-! ## Single lexemes -/

/-- What a rule makes of a token. -/
inductive Verdict (α : Type) where
  /-- It is taken and means this. -/
  | take (a : α)
  /-- It is not of the right kind. -/
  | pass
  /-- It is of the right kind, but refused. -/
  | refuse (cause : Cause)

/-- Reads one lexeme that a rule takes. Where it does not, `what` names what was expected. -/
def lexeme (what : List String) (judge : Lexeme τ → Verdict α) : Reader τ α
  | [] => ⟨none, some ⟨none, .expected what⟩⟩
  | x :: rest =>
    match judge x with
    | .take a => ⟨some (a, rest), none⟩
    | .pass => ⟨none, some ⟨some x, .expected what⟩⟩
    | .refuse cause => ⟨none, some ⟨some x, .refused cause⟩⟩

/-- Reads nothing, and only at the end of the text. -/
def ended : Reader τ Unit
  | [] => ⟨some ((), []), none⟩
  | x :: _ => ⟨none, some ⟨some x, .expected ["end of input"]⟩⟩

/-! ## Repetition

A repetition is bounded. The bound is always chosen above the number of lexemes left, so that it is
never reached. -/

/-- Reads as often as possible. -/
def many (p : Reader τ α) : Nat → Reader τ (List α)
  | 0 => pure []
  | n + 1 => do
    match ← optional p with
    | none => pure []
    | some a => return a :: (← many p n)

/-- Reads what follows an item in a list with separators; a separator may end the list. -/
def moreItems (item : Reader τ α) (separator : Reader τ β) : Nat → Reader τ (List α)
  | 0 => pure []
  | n + 1 => do
    match ← optional separator with
    | none => pure []
    | some _ =>
      match ← optional item with
      | none => pure []
      | some a => return a :: (← moreItems item separator n)

/-- Reads a list of items with separators between them; a separator may end the list. -/
def items (item : Reader τ α) (separator : Reader τ β) (n : Nat) : Reader τ (List α) := do
  match ← optional item with
  | none => pure []
  | some a => return a :: (← moreItems item separator n)

/-! ## Whole texts -/

/-- The span of the end of a text, for errors: it starts at the end of the text and stops where the
last token does, or at the end of the text where there is no token. -/
def endSpan (text : List Char) (xs : List (Lexeme τ)) : Span :=
  ⟨width text, (xs.getLast?.map fun x => x.span.stop).getD (width text)⟩

/-- The error that a failure amounts to. -/
def errorOf (describe : τ → String) (text : List Char) (xs : List (Lexeme τ)) (f : Failure τ) :
    SyntaxError :=
  let span := match f.found with
    | some x => x.span
    | none => endSpan text xs
  match f.complaint with
  | .refused cause => ⟨span, cause, []⟩
  | .expected what =>
    match f.found with
    | some x => ⟨span, .unexpected (describe x.token), what⟩
    | none => ⟨span, .unexpectedEnd, what⟩

/-- Reads a whole text, given with its lexemes; there is at most one error. -/
def readAll (p : Reader τ α) (describe : τ → String) (text : List Char) (xs : List (Lexeme τ)) :
    Except (List SyntaxError) α :=
  let o := (do let a ← p; ended; pure a : Reader τ α) xs
  match o.result with
  | some (a, _) => .ok a
  | none => .error [errorOf describe text xs (o.failure.getD ⟨none, .expected []⟩)]

end Reader

end InfraGraph.Reading
