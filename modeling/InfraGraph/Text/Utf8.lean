import InfraGraph.Text.Span

/-!
# UTF-8: the bytes of texts, and bytes as texts

Paths and names on a disk are bytes. A text becomes bytes by UTF-8. Bytes become a text for a
reader: what is no UTF-8 is replaced, as long a part at once as could be the beginning of a
character.

## Main results

* `lossy_utf8` — the bytes of a text are read as this text.
-/

namespace InfraGraph.Text

/-- The bytes of a text. -/
def utf8 (cs : List Char) : List UInt8 := cs.flatMap String.utf8EncodeChar

/-- The character with which bytes begin, if they begin with one. -/
def firstChar? (bytes : List UInt8) : Option Char := (bytes.take 4).toByteArray.utf8DecodeChar? 0

/-- Whether two bytes begin a character of three or four bytes. Numbers that have a shorter form,
surrogates and numbers that are too large have no such beginning. -/
def beginsChar (first second : UInt8) : Bool :=
  if first = 0xE0 then 0xA0 ≤ second && second ≤ 0xBF
  else if first = 0xED then 0x80 ≤ second && second ≤ 0x9F
  else if first = 0xF0 then 0x90 ≤ second && second ≤ 0xBF
  else if first = 0xF4 then 0x80 ≤ second && second ≤ 0x8F
  else 0xE1 ≤ first && first ≤ 0xF3 && 0x80 ≤ second && second ≤ 0xBF

/-- How many bytes are replaced at once where bytes do not begin with a character: those that begin
one, or else the first byte. -/
def faultWidth : List UInt8 → Nat
  | first :: second :: rest =>
    if !beginsChar first second then 1
    else
      match rest with
      | third :: _ => if 0xF0 ≤ first && 0x80 ≤ third && third ≤ 0xBF then 3 else 2
      | [] => 2
  | _ => 1

/-- What stands for bytes that are no UTF-8. -/
def replacement : Char := Char.ofNat 0xFFFD

/-- The text that bytes are read as; the first `skip` bytes belong to what has been read already. -/
def lossyFrom : Nat → List UInt8 → List Char
  | _, [] => []
  | skip + 1, _ :: rest => lossyFrom skip rest
  | 0, b :: rest =>
    match firstChar? (b :: rest) with
    | some c => c :: lossyFrom (c.utf8Size - 1) rest
    | none => replacement :: lossyFrom (faultWidth (b :: rest) - 1) rest

/-- The text that bytes are read as. -/
def lossy (bytes : List UInt8) : List Char := lossyFrom 0 bytes

/-! ## Reading the bytes of a text -/

theorem utf8_cons (c : Char) (cs : List Char) :
    utf8 (c :: cs) = String.utf8EncodeChar c ++ utf8 cs := rfl

/-- Bytes that begin with those of a character begin with this character. -/
theorem firstChar?_append (c : Char) (bytes : List UInt8) :
    firstChar? (String.utf8EncodeChar c ++ bytes) = some c := by
  have hlength : (String.utf8EncodeChar c).length ≤ 4 := by
    rw [String.length_utf8EncodeChar]
    exact c.utf8Size_le_four
  rw [firstChar?, List.take_append, List.take_of_length_le hlength, List.toByteArray_append]
  exact ByteArray.utf8DecodeChar?_utf8EncodeChar_append

theorem lossyFrom_append (skipped bytes : List UInt8) :
    lossyFrom skipped.length (skipped ++ bytes) = lossy bytes := by
  induction skipped with
  | nil => rfl
  | cons b rest ih => exact ih

/-- The bytes of a text are read as this text. -/
theorem lossy_utf8 (cs : List Char) : lossy (utf8 cs) = cs := by
  induction cs with
  | nil => rfl
  | cons c cs ih =>
    have hfirst := firstChar?_append c (utf8 cs)
    have hlength := String.length_utf8EncodeChar c
    have hpos := c.utf8Size_pos
    rw [utf8_cons]
    cases hbytes : String.utf8EncodeChar c with
    | nil =>
      rw [hbytes, List.length_nil] at hlength
      omega
    | cons b bs =>
      rw [hbytes, List.length_cons] at hlength
      rw [hbytes] at hfirst
      have hskip : c.utf8Size - 1 = bs.length := by omega
      rw [List.cons_append] at hfirst ⊢
      rw [lossy, lossyFrom, hfirst]
      dsimp only
      rw [hskip, lossyFrom_append, ih]

end InfraGraph.Text
