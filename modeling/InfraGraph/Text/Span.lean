/-!
# Spans: byte ranges of a text

Positions in a source text are byte offsets of its UTF-8 form. A text is handled as its list of
characters, so an offset is reached by adding up `Char.utf8Size`; `width` is that sum, and
`takeBytes`/`dropBytes` cut a text at an offset without ever splitting a character.

## Main results

* `width_append` — widths add up, so consecutive pieces of a text have consecutive spans.
* `takeBytes_append`, `dropBytes_append` — cutting at the width of a first part gives back that part
  and the rest.
* `slice_append` — the slice at the span of a middle part is that part.
-/

namespace InfraGraph.Text

/-- A range of bytes: from `start` up to, not including, `stop`. -/
structure Span where
  start : Nat
  stop : Nat
  deriving DecidableEq, Repr, Inhabited

/-- The number of bytes of a text. -/
def width : List Char → Nat
  | [] => 0
  | c :: cs => c.utf8Size + width cs

@[simp] theorem width_nil : width [] = 0 := rfl

@[simp] theorem width_cons (c : Char) (cs : List Char) :
    width (c :: cs) = c.utf8Size + width cs := rfl

/-- Widths add up. -/
@[simp] theorem width_append (xs ys : List Char) : width (xs ++ ys) = width xs + width ys := by
  induction xs with
  | nil => simp
  | cons c cs ih => simp [ih, Nat.add_assoc]

/-- The longest first part of a text that fits into `n` bytes. -/
def takeBytes : Nat → List Char → List Char
  | _, [] => []
  | n, c :: cs => if c.utf8Size ≤ n then c :: takeBytes (n - c.utf8Size) cs else []

/-- What is left of a text after `takeBytes`. -/
def dropBytes : Nat → List Char → List Char
  | _, [] => []
  | n, c :: cs => if c.utf8Size ≤ n then dropBytes (n - c.utf8Size) cs else c :: cs

@[simp] theorem takeBytes_zero (cs : List Char) : takeBytes 0 cs = [] := by
  cases cs with
  | nil => rfl
  | cons c cs =>
    have := c.utf8Size_pos
    have h : ¬ c.utf8Size ≤ 0 := by omega
    simp [takeBytes, h]

@[simp] theorem dropBytes_zero (cs : List Char) : dropBytes 0 cs = cs := by
  cases cs with
  | nil => rfl
  | cons c cs =>
    have := c.utf8Size_pos
    have h : ¬ c.utf8Size ≤ 0 := by omega
    simp [dropBytes, h]

/-- Taking the width of a first part takes this part. -/
@[simp] theorem takeBytes_append (xs ys : List Char) : takeBytes (width xs) (xs ++ ys) = xs := by
  induction xs with
  | nil => simp
  | cons c cs ih => simp [takeBytes, ih]

/-- Dropping the width of a first part leaves the rest. -/
@[simp] theorem dropBytes_append (xs ys : List Char) : dropBytes (width xs) (xs ++ ys) = ys := by
  induction xs with
  | nil => simp
  | cons c cs ih => simp [dropBytes, ih]

/-- The part of a text that a span covers. -/
def slice (span : Span) (cs : List Char) : List Char :=
  takeBytes (span.stop - span.start) (dropBytes span.start cs)

/-- The slice at the span of a middle part is this part. -/
theorem slice_append (xs ys zs : List Char) :
    slice ⟨width xs, width xs + width ys⟩ (xs ++ (ys ++ zs)) = ys := by
  simp [slice]

end InfraGraph.Text
