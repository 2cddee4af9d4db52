import InfraGraph.Block.Grammar
import InfraGraph.Proofs.Definition.Errors

/-!
# Where the errors of code blocks point

The readers of code blocks are honest like those of definitions; dropping separators leaves only
tokens of the text. With this, the errors of both languages point into the text, each end of their
ranges between characters. Only the range of an error at the end of a text is turned around, where
blanks, comments or dropped separators follow the last token: it starts at the end of the text and
stops where that token does.

## Main results

* `Token.shows_cut` — a fault shows what cannot be read.
* `Grammar.honest_block` — the grammar fails at a token or at the end of the text.
* `errors_point` — where the errors of a text of either language point.
-/

namespace InfraGraph.Block

open InfraGraph.Reading

/-! ## Faults -/

namespace Token

private theorem shows_cutChar (c : Char) (cs : List Char) : (cutChar c cs).1.Shows := by
  unfold cutChar
  split
  · exact fun cause shown h => by cases h
  · exact shows_cutStray c cs

private theorem shows_cutSymbol (c : Char) (cs : List Char) : (cutSymbol c cs).1.Shows := by
  unfold cutSymbol
  split
  · exact shows_cutChar c []
  · split
    · exact fun cause shown h => by cases h
    · exact shows_cutChar c _

/-- Every fault in a code block shows the first part of its text. -/
theorem shows_cut (c : Char) (cs : List Char) : (cut c cs).1.Shows := by
  unfold cut
  split
  · exact shows_cutWhile isGap (fun _ _ _ h => by cases h) c cs
  split
  · exact shows_cutWhile (· != '\n') (fun _ _ _ h => by cases h) c cs
  split
  · exact fun cause shown h => by cases h
  split
  · exact shows_cutWhile continuesWord (fun _ _ _ h => by cases h) c cs
  split
  · exact shows_cutQuoted string c cs
  split
  · exact shows_cutNumeral numberRule [] (c :: cs)
  · exact shows_cutSymbol c cs

/-- The tokens that are left where separators are dropped cover parts of the text. -/
theorem within_of_lexemes_ok {text : List Char} {xs : List (Lexeme Token)}
    (h : lexemes text = .ok xs) : ∀ x ∈ xs, x.span.Within text := by
  unfold lexemes at h
  cases hcut : Reading.lexemes cut text with
  | error errors =>
      rw [hcut] at h
      cases h
  | ok ys =>
      rw [hcut] at h
      obtain rfl := Except.ok.inj h
      intro x hx
      exact Reading.within_of_lexemes_ok cut_faithful hcut x
        ((dropSeparators_sublist 0 true ys).subset hx)

private theorem within_of_lexemes_error {text : List Char} {errors : List SyntaxError}
    (h : lexemes text = .error errors) : errors ≠ [] ∧ ∀ e ∈ errors, e.span.Within text := by
  unfold lexemes at h
  cases hcut : Reading.lexemes cut text with
  | error faults =>
      rw [hcut] at h
      obtain rfl := Except.error.inj h
      exact Reading.within_of_lexemes_error cut_faithful shows_cut hcut
  | ok ys =>
      rw [hcut] at h
      cases h

end Token

/-! ## The grammar -/

namespace Grammar

open Reader (Honest)

variable {α : Type}

private theorem honest_symbol (s : Symbol) : Honest (symbol s) :=
  .lexeme _ fun x h => by
    split at h
    · split at h <;> cases h
    · cases h

private theorem honest_separator : Honest separator :=
  .lexeme _ fun x h => by split at h <;> cases h

private theorem honest_name : Honest name :=
  .lexeme _ fun x h => by split at h <;> cases h

private theorem honest_between (opening closing : Symbol) {p : Reader Token α} (hp : Honest p) :
    Honest (between opening closing p) :=
  (honest_symbol opening).bind fun _ => hp.bind fun _ => (honest_symbol closing).bind fun _ =>
    .pure _

private theorem honest_literal : Honest literal :=
  .lexeme _ fun x h => by split at h <;> cases h

private theorem honest_entryKey : Honest entryKey :=
  .lexeme _ fun x h => by split at h <;> cases h

section

variable {e : Reader Token Expr}

private theorem honest_conditional (he : Honest e) : Honest (conditional e) :=
  (honest_symbol .ifWord).bind fun _ => he.bind fun _ => (honest_symbol .thenWord).bind fun _ =>
    he.bind fun _ => (honest_symbol .elseWord).bind fun _ => he.bind fun _ => .pure _

private theorem honest_expressions (he : Honest e) (n : Nat) : Honest (expressions e n) :=
  he.items (honest_symbol .comma) n

private theorem honest_entry (he : Honest e) : Honest (entry e) :=
  honest_entryKey.bind fun _ => (honest_symbol .colon).bind fun _ => he.bind fun _ => .pure _

private theorem honest_atom (he : Honest e) (n : Nat) : Honest (atom e n) := by
  have hlist : Honest (between .bracketOpen .bracketClose (expressions e n)) :=
    honest_between _ _ (honest_expressions he n)
  have hmap : Honest
      (between .braceOpen .braceClose (Reader.items (entry e) (symbol .comma) n)) :=
    honest_between _ _ ((honest_entry he).items (honest_symbol .comma) n)
  exact honest_literal.orElse ((honest_conditional he).orElse ((honest_name.map _).orElse
    ((hlist.map _).orElse ((hmap.map _).orElse (honest_between _ _ he)))))

private theorem honest_behind (he : Honest e) (n : Nat) : Honest (behind e n) := by
  have hfield : Honest (do symbol .dot; Postfix.field <$> name) :=
    (honest_symbol .dot).bind fun _ => honest_name.map _
  have hindex : Honest (between .bracketOpen .bracketClose e) := honest_between _ _ he
  have hcall : Honest (between .parenOpen .parenClose (expressions e n)) :=
    honest_between _ _ (honest_expressions he n)
  exact hfield.orElse ((hindex.map _).orElse (hcall.map _))

private theorem honest_access (he : Honest e) (n : Nat) : Honest (access e n) :=
  (honest_atom he n).bind fun _ => ((honest_behind he n).many n).bind fun _ => .pure _

private theorem honest_operand (he : Honest e) (n : Nat) : Honest (operand e n) := by
  have hminus : Honest (do symbol .minus; return UnaryOp.neg) :=
    (honest_symbol .minus).bind fun _ => .pure _
  have hbang : Honest (do symbol .bang; return UnaryOp.not) :=
    (honest_symbol .bang).bind fun _ => .pure _
  exact ((hminus.orElse hbang).many n).bind fun _ => (honest_access he n).bind fun _ => .pure _

private theorem honest_oneOf (ops : List (Symbol × BinaryOp)) : Honest (oneOf ops) := by
  induction ops with
  | nil => exact .never
  | cons op ops ih => exact ((honest_symbol op.1).bind fun _ => .pure op.2).orElse ih

private theorem honest_level (ops : List (Symbol × BinaryOp)) (n : Nat) (he : Honest e) :
    Honest (level ops n e) := by
  have hmore : Honest (do let op ← oneOf ops; let right ← e; return (op, right)) :=
    (honest_oneOf ops).bind fun _ => he.bind fun _ => .pure _
  exact he.bind fun _ => (hmore.many n).bind fun _ => .pure _

private theorem honest_levels (ls : List (List (Symbol × BinaryOp))) (n : Nat) (he : Honest e) :
    Honest (ls.foldl (fun p ops => level ops n p) e) := by
  induction ls generalizing e with
  | nil => exact he
  | cons ops ls ih => exact ih (honest_level ops n he)

end

private theorem honest_expression (n : Nat) : Honest (expression n) := by
  induction n with
  | zero => exact .never
  | succ n ih => exact honest_levels levels n (honest_operand ih n)

private theorem honest_statement (n : Nat) : Honest (statement n) := by
  have hassign : Honest (do
      let target ← name
      symbol .assign
      let e ← expression n
      return Statement.assign target e) :=
    honest_name.bind fun _ => (honest_symbol .assign).bind fun _ =>
      (honest_expression n).bind fun _ => .pure _
  exact hassign.orElse ((honest_expression n).map _)

/-- The reader of blocks leaves the last lexemes over, and fails among them all or at their end. -/
theorem honest_block (n : Nat) : Honest (block n) :=
  honest_separator.optional.bind fun _ => (honest_statement n).items honest_separator n

end Grammar

/-- The errors of a code block point into it. -/
theorem points_of_read {text : List Char} {errors : List SyntaxError}
    (h : read text = .error errors) :
    errors ≠ [] ∧ ∀ e ∈ errors, e.Points (Token.lexemes text) text :=
  Reading.points_of_read (fun _ => Token.within_of_lexemes_error)
    (fun _ => Token.within_of_lexemes_ok) (fun xs => Grammar.honest_block (xs.length + 2)) h

end InfraGraph.Block

namespace InfraGraph

open InfraGraph.Reading

/-- A text that is not read, as definitions or as a code block, has an error, and each of its errors
lies in the text with both ends between characters. It is turned around exactly where the text ends
too early and there is something behind its last token. -/
theorem errors_point (text : List Char) (errors : List SyntaxError) :
    (Definition.Definitions.read text = .error errors →
      errors ≠ [] ∧ ∀ e ∈ errors, e.Points (Definition.Token.lexemes text) text) ∧
    (Block.read text = .error errors →
      errors ≠ [] ∧ ∀ e ∈ errors, e.Points (Block.Token.lexemes text) text) :=
  ⟨Definition.Definitions.points_of_read, Block.points_of_read⟩

/-- The errors of an outcome, none where there is a result. -/
def errorsIn {α : Type} : Except (List SyntaxError) α → List SyntaxError
  | .error errors => errors
  | .ok _ => []

theorem eq_error_of_errorsIn {α : Type} {outcome : Except (List SyntaxError) α}
    {e : SyntaxError} {more : List SyntaxError} (h : errorsIn outcome = e :: more) :
    outcome = .error (e :: more) := by
  cases outcome with
  | error errors => exact congrArg Except.error h
  | ok a => cases h

/-- The section of components is missing its braces, and the statement its second operand. -/
theorem errors_point_missing :
    (∃ e, Definition.Definitions.read "components".toList = .error [e] ∧
      e.Points (Definition.Token.lexemes "components".toList) "components".toList) ∧
    ∃ e, Block.read "1 +".toList = .error [e] ∧
      e.Points (Block.Token.lexemes "1 +".toList) "1 +".toList := by
  have hcomponents : errorsIn (Definition.Definitions.read "components".toList) =
      [⟨⟨10, 10⟩, .unexpectedEnd, ["'\x7b'"]⟩] := by
    decide +kernel
  have hsum : errorsIn (Block.read "1 +".toList) =
      [⟨⟨3, 3⟩, .unexpectedEnd, ["'-'", "'!'", "'if'", "'['", "'\x7b'", "'('"]⟩] := by
    decide +kernel
  have hread := eq_error_of_errorsIn hcomponents
  have hreadSum := eq_error_of_errorsIn hsum
  exact ⟨⟨_, hread, ((errors_point _ _).1 hread).2 _ List.mem_cons_self⟩,
    _, hreadSum, ((errors_point _ _).2 hreadSum).2 _ List.mem_cons_self⟩

/-- A blank behind the last token turns the range of the end around, in both languages. -/
theorem errors_point_turned :
    Definition.Definitions.read "components \x7b ".toList =
        .error [⟨⟨13, 12⟩, .unexpectedEnd, ["'\x7d'"]⟩] ∧
      Block.read "1 + ".toList =
        .error [⟨⟨4, 3⟩, .unexpectedEnd, ["'-'", "'!'", "'if'", "'['", "'\x7b'", "'('"]⟩] :=
  ⟨eq_error_of_errorsIn (by decide +kernel), eq_error_of_errorsIn (by decide +kernel)⟩

end InfraGraph
