import InfraGraph.Entries

/-!
# Settings written as TOML

A configuration is a TOML document of settings, each a string or an array of strings under a simple
key. Strings are written in all four forms of TOML 1.0: basic and literal, on one line or over
several. Other values, tables and dotted keys are TOML too, but no setting takes them, so they are
refused like what is no TOML at all.
-/

namespace InfraGraph.Toml

/-- The value of a setting. -/
inductive Setting where
  | text (s : List Char)
  | texts (items : List (List Char))
  deriving DecidableEq, Repr, Inhabited

/-! ## Characters -/

/-- The blanks inside a line. -/
def isBlank (c : Char) : Bool := c = ' ' || c = '\t'

/-- Whether a character may stand in a comment or a string: not a control character but the tab. -/
def isText (c : Char) : Bool := c = '\t' || (32 ≤ c.toNat && c.toNat ≠ 127)

/-- What is left after the blanks at the start of a text. -/
def skipBlanks (cs : List Char) : List Char := cs.dropWhile isBlank

/-- What is left after a newline at the start of a text, if there is one. -/
def afterNewline? : List Char → Option (List Char)
  | '\n' :: cs => some cs
  | '\r' :: '\n' :: cs => some cs
  | _ => none

/-! ## Strings -/

/-- The value of a hexadecimal digit. -/
def hexDigit? (c : Char) : Option Nat :=
  if c.isDigit then some (c.toNat - 48)
  else if 'a' ≤ c ∧ c ≤ 'f' then some (c.toNat - 87)
  else if 'A' ≤ c ∧ c ≤ 'F' then some (c.toNat - 55)
  else none

/-- The character with a number in hexadecimal digits. -/
def charOfHex? (digits : List Char) : Option Char := do
  let n ← digits.foldlM (fun n c => (hexDigit? c).map (16 * n + ·)) 0
  if n.isValidChar then some (Char.ofNat n) else none

/-- The character that a backslash and another character write. -/
def escaped? (c : Char) : Option Char :=
  match c with
  | 'b' => some (Char.ofNat 8)
  | 't' => some '\t'
  | 'n' => some '\n'
  | 'f' => some (Char.ofNat 12)
  | 'r' => some '\r'
  | '"' => some '"'
  | '\\' => some '\\'
  | _ => none

/-- A text and what is left after it, with a character before the text. -/
def before (c : Char) (r : List Char × List Char) : List Char × List Char := (c :: r.1, r.2)

/-- Reads on in a basic string, up to its closing quote. -/
def basic? : List Char → Option (List Char × List Char)
  | '"' :: cs => some ([], cs)
  | '\\' :: 'u' :: a :: b :: c :: d :: cs => do
    let x ← charOfHex? [a, b, c, d]
    return before x (← basic? cs)
  | '\\' :: 'U' :: a :: b :: c :: d :: e :: f :: g :: h :: cs => do
    let x ← charOfHex? [a, b, c, d, e, f, g, h]
    return before x (← basic? cs)
  | '\\' :: c :: cs => do
    let x ← escaped? c
    return before x (← basic? cs)
  | c :: cs => if isText c then (basic? cs).map (before c) else none
  | [] => none

/-- Reads on in a literal string, up to its closing quote. -/
def literal? : List Char → Option (List Char × List Char)
  | '\'' :: cs => some ([], cs)
  | c :: cs => if isText c then (literal? cs).map (before c) else none
  | [] => none

/-- What follows three quotes that end a string over several lines: up to two more of them belong to
the string. -/
def closing? (quote : Char) (cs : List Char) : Option (List Char × List Char) :=
  let more := cs.takeWhile (· = quote)
  if more.length ≤ 2 then some (more, cs.drop more.length) else none

/-- Reads on in a basic string over several lines. A backslash at the end of a line leaves out
everything up to the next character that is no blank; `skipping` says that this is under way. -/
def longBasic? (skipping : Bool) : List Char → Option (List Char × List Char)
  | '"' :: '"' :: '"' :: cs => closing? '"' cs
  | '\\' :: 'u' :: a :: b :: c :: d :: cs => do
    let x ← charOfHex? [a, b, c, d]
    return before x (← longBasic? false cs)
  | '\\' :: 'U' :: a :: b :: c :: d :: e :: f :: g :: h :: cs => do
    let x ← charOfHex? [a, b, c, d, e, f, g, h]
    return before x (← longBasic? false cs)
  | '\\' :: c :: cs =>
    if (afterNewline? (skipBlanks (c :: cs))).isSome then longBasic? true (c :: cs)
    else do
      let x ← escaped? c
      return before x (← longBasic? false cs)
  | '\r' :: '\n' :: cs =>
    if skipping then longBasic? true cs else (longBasic? false cs).map (before '\n')
  | c :: cs =>
    if skipping ∧ (c = '\n' ∨ isBlank c) then longBasic? true cs
    else if c = '\n' ∨ isText c then (longBasic? false cs).map (before c)
    else none
  | [] => none

/-- Reads on in a literal string over several lines. -/
def longLiteral? : List Char → Option (List Char × List Char)
  | '\'' :: '\'' :: '\'' :: cs => closing? '\'' cs
  | '\r' :: '\n' :: cs => (longLiteral? cs).map (before '\n')
  | c :: cs => if c = '\n' ∨ isText c then (longLiteral? cs).map (before c) else none
  | [] => none

/-- A text without a newline at its start. -/
def withoutFirstNewline (cs : List Char) : List Char := (afterNewline? cs).getD cs

/-- Reads a string of any form. -/
def string? : List Char → Option (List Char × List Char)
  | '"' :: '"' :: '"' :: cs => longBasic? false (withoutFirstNewline cs)
  | '"' :: cs => basic? cs
  | '\'' :: '\'' :: '\'' :: cs => longLiteral? (withoutFirstNewline cs)
  | '\'' :: cs => literal? cs
  | _ => none

/-! ## Arrays

Loops are bounded by the length of the text; each time they read a character of it. -/

/-- What is left after a comment at the start of a text, up to the end of the line. -/
def skipComment : List Char → List Char
  | '#' :: cs => cs.dropWhile isText
  | cs => cs

/-- What is left after blanks, newlines and comments at the start of a text. -/
def skipGaps : Nat → List Char → List Char
  | 0, cs => cs
  | n + 1, cs =>
    let rest := skipComment (skipBlanks cs)
    match afterNewline? rest with
    | some more => skipGaps n more
    | none => rest

/-- Reads on in an array, from its start or from behind a comma. -/
def items? : Nat → List Char → Option (List (List Char) × List Char)
  | 0, _ => none
  | n + 1, cs =>
    match skipGaps (n + 1) cs with
    | ']' :: rest => some ([], rest)
    | rest => do
      let (item, rest) ← string? rest
      match skipGaps (n + 1) rest with
      | ']' :: rest => return ([item], rest)
      | ',' :: rest => do
        let (more, rest) ← items? n rest
        return (item :: more, rest)
      | _ => none

/-! ## Documents -/

/-- The characters of a key without quotes. -/
def inBareKey (c : Char) : Bool := c.isAlphanum || c = '_' || c = '-'

/-- Reads a key. -/
def key? : List Char → Option (List Char × List Char)
  | '"' :: cs => basic? cs
  | '\'' :: cs => literal? cs
  | cs =>
    let word := cs.takeWhile inBareKey
    if word.isEmpty then none else some (word, cs.dropWhile inBareKey)

/-- Reads the value of a setting. -/
def value? : List Char → Option (Setting × List Char)
  | '[' :: cs => do
    let (items, rest) ← items? (cs.length + 1) cs
    return (.texts items, rest)
  | cs => do
    let (s, rest) ← string? cs
    return (.text s, rest)

/-- Reads a setting. -/
def setting? (cs : List Char) : Option ((List Char × Setting) × List Char) := do
  let (key, rest) ← key? cs
  match skipBlanks rest with
  | '=' :: rest => do
    let (value, rest) ← value? (skipBlanks rest)
    return ((key, value), rest)
  | _ => none

/-- Reads the lines of a document. -/
def lines? : Nat → List Char → Option (List (List Char × Setting))
  | 0, _ => none
  | n + 1, cs => do
    let start := skipBlanks cs
    let (found, rest) ← match start with
      | [] => some ([], start)
      | c :: _ =>
        if c = '#' ∨ (afterNewline? start).isSome then some ([], start)
        else (setting? start).map fun (s, rest) => ([s], rest)
    match skipComment (skipBlanks rest) with
    | [] => return found
    | rest => do
      let more ← lines? n (← afterNewline? rest)
      return found ++ more

/-- The settings that a document makes, each key once. A byte order mark may stand before it. -/
def read? (cs : List Char) : Option (List (List Char × Setting)) := do
  let text := match cs with
    | '\ufeff' :: rest => rest
    | _ => cs
  let settings ← lines? (text.length + 1) text
  if (settings.map Prod.fst).Nodup then some settings else none

end InfraGraph.Toml
