import InfraGraph.Text.CaseTable

/-!
# Case: full Unicode case conversion

Upper and lower case of a whole text, by the full mappings of the standard: a letter may become
several (`ß` is written `SS`), and a capital sigma becomes the final form `ς` at the end of a word.
-/

namespace InfraGraph.Text

/-- The image of a code point under a list of runs. -/
def shiftIn (runs : List (Nat × Nat × Nat × Int)) (n : Nat) : Option Nat :=
  (runs.find? fun r => r.1 ≤ n && n ≤ r.2.1 && (n - r.1) % r.2.2.1 == 0).map fun r =>
    ((n : Int) + r.2.2.2).toNat

/-- Whether a code point is in a list of ranges. -/
def inRanges (ranges : List (Nat × Nat)) (n : Nat) : Bool :=
  ranges.any fun r => r.1 ≤ n && n ≤ r.2

/-- The image of a character: its special mapping, else its run, else itself. -/
def convert (runs : List (Nat × Nat × Nat × Int)) (special : List (Nat × List Nat)) (c : Char) :
    List Char :=
  match shiftIn runs c.toNat with
  | some n => [Char.ofNat n]
  | none =>
    match special.lookup c.toNat with
    | some ns => ns.map Char.ofNat
    | none => [c]

/-! ## Upper case -/

/-- The upper case of one character. -/
def upperChar (c : Char) : List Char := convert upperRuns upperSpecial c

/-- The upper case of a text. -/
def upper (cs : List Char) : List Char := cs.flatMap upperChar

/-! ## Lower case -/

/-- The lower case of one character, apart from its neighbours. -/
def lowerChar (c : Char) : List Char := convert lowerRuns lowerSpecial c

/-- Whether the first character that is not passed over is a letter with case. -/
def meetsCased (cs : List Char) : Bool :=
  match cs.dropWhile fun c => inRanges ignorableRanges c.toNat with
  | [] => false
  | c :: _ => inRanges casedRanges c.toNat

/-- The form of a sigma between what stands before it, read backwards, and what follows: final
after a letter and before none. -/
def sigma (before rest : List Char) : Char :=
  if meetsCased before && !meetsCased rest then 'ς' else 'σ'

/-- The lower case of a text that follows `before`, which is held backwards. -/
def lowerFrom : List Char → List Char → List Char
  | _, [] => []
  | before, c :: rest =>
    (if c = 'Σ' then [sigma before rest] else lowerChar c) ++ lowerFrom (c :: before) rest

/-- The lower case of a text. -/
def lower (cs : List Char) : List Char := lowerFrom [] cs

end InfraGraph.Text
