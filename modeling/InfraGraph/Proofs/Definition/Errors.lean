import InfraGraph.Definition.Grammar
import InfraGraph.Proofs.Reading.Errors

/-!
# Where the errors of definitions point

Every reader of the grammar is put together from honest ones, so that a source text that is not read
is blamed on one of its tokens or on its end.

## Main results

* `Token.shows_cut` — a fault shows the first part of what cannot be read.
* `Grammar.honest_definitions` — the grammar fails at a token or at the end of the text.
* `Definitions.points_of_read` — where the errors of a source text point.
-/

namespace InfraGraph.Definition

open InfraGraph.Reading

/-! ## Faults -/

namespace Token

private theorem shows_cutCode (c : Char) (cs : List Char) : (cutCode c cs).1.Shows := by
  unfold cutCode
  split
  · rename_i hfence
    split
    · exact fun cause shown h => by cases h
    · -- An open block is blamed on its fence.
      intro cause shown h
      cases h
      exact List.isPrefixOf_iff_prefix.1 hfence
  · exact shows_cutStray c cs

/-- Every fault in a definition shows the first part of its text. -/
theorem shows_cut (c : Char) (cs : List Char) : (cut c cs).1.Shows := by
  unfold cut
  split
  · exact shows_cutWhile isGap (fun _ _ _ h => by cases h) c cs
  split
  · exact shows_cutWhile (· != '\n') (fun _ _ _ h => by cases h) c cs
  split
  · exact shows_cutWhile continuesWord (fun _ _ _ h => by cases h) c cs
  split
  · exact shows_cutQuoted string c cs
  split
  · exact shows_cutNumeral numberRule [] (c :: cs)
  split
  · split
    · intro cause shown h
      cases h
      exact List.prefix_rfl
    · exact shows_cutNumeral numberRule [c] cs
  split
  · exact shows_cutCode c cs
  · split
    · exact fun cause shown h => by cases h
    · exact shows_cutStray c cs

end Token

/-! ## The grammar -/

namespace Grammar

open Reader (Honest)

variable {α : Type}

private theorem honest_mark (m : Mark) : Honest (mark m) :=
  .lexeme _ fun x h => by
    split at h
    · split at h <;> cases h
    · cases h

private theorem honest_theWord (text : String) : Honest (theWord text) :=
  .lexeme _ fun x h => by
    split at h
    · split at h <;> cases h
    · cases h

private theorem honest_anyWord : Honest anyWord :=
  .lexeme _ fun x h => by
    split at h <;> cases h

private theorem honest_between (opening closing : Mark) {p : Reader Token α} (hp : Honest p) :
    Honest (between opening closing p) :=
  (honest_mark opening).bind fun _ => hp.bind fun _ => (honest_mark closing).bind fun _ => .pure _

private theorem honest_scalar : Honest scalar :=
  .lexeme _ fun x h => by
    split at h <;> cases h

private theorem honest_memberKey : Honest memberKey :=
  .lexeme _ fun x h => by
    split at h <;> cases h

private theorem honest_literal (n : Nat) : Honest (literal n) := by
  induction n with
  | zero => exact .never
  | succ n ih =>
      have hmember : Honest (member (literal n)) :=
        honest_memberKey.bind fun _ => ih.bind fun _ => .pure _
      have hlist : Honest (list (literal n) n) :=
        (honest_between _ _ (ih.items (honest_mark .comma) n)).bind fun _ => .pure _
      have hobject : Honest (object (literal n) n) :=
        (honest_between _ _ (hmember.items (honest_mark .comma) n)).bind fun _ => .pure _
      exact honest_scalar.orElse (hlist.orElse hobject)

private theorem honest_keyword (context : Context) : Honest (keyword context) :=
  .lexeme _ fun x h => by
    split at h
    · split at h
      · split at h <;> cases h
      · cases h
    · cases h

private theorem honest_property (context : Context) (n : Nat) : Honest (property context n) :=
  (honest_keyword context).bind fun _ => (honest_literal n).bind fun _ =>
    (honest_mark .comma).optional.bind fun _ => .pure _

private theorem honest_properties (context : Context) (n : Nat) : Honest (properties context n) :=
  (honest_property context n).many n

private theorem honest_defaults (n : Nat) : Honest (defaults n) :=
  (honest_theWord _).bind fun _ =>
    (honest_between _ _ (honest_properties .defaults n)).bind fun _ => .pure _

private theorem honest_componentType (text : List Char) (n : Nat) : Honest (componentType text n) :=
  honest_anyWord.bind fun _ =>
    (((honest_mark .dot).orElse honest_anyWord).many n).bind fun _ => .pure _

private theorem honest_component (text : List Char) (n : Nat) : Honest (component text n) :=
  (honest_componentType text n).bind fun _ =>
    (honest_between _ _ (honest_properties .component n)).bind fun _ => .pure _

private theorem honest_components (text : List Char) (n : Nat) : Honest (components text n) :=
  (honest_theWord _).bind fun _ =>
    (honest_between _ _ ((honest_component text n).many n)).bind fun _ => .pure _

private theorem honest_eventKind : Honest eventKind :=
  .lexeme _ fun x h => by
    split at h
    · split at h <;> cases h
    · cases h

private theorem honest_event (n : Nat) : Honest (event n) :=
  honest_eventKind.bind fun _ =>
    (honest_between _ _ (honest_properties .event n)).bind fun _ => .pure _

private theorem honest_events (n : Nat) : Honest (events n) :=
  (honest_theWord _).bind fun _ =>
    (honest_between _ _ ((honest_event n).many n)).bind fun _ => .pure _

/-- The reader of definitions fails among the lexemes of the text or at their end. -/
theorem honest_definitions (text : List Char) (n : Nat) : Honest (definitions text n) :=
  (honest_defaults n).optional.bind fun _ => (honest_components text n).bind fun _ =>
    (honest_events n).optional.bind fun _ => .pure _

end Grammar

/-- The errors of a source text point into it. -/
theorem Definitions.points_of_read {text : List Char} {errors : List SyntaxError}
    (h : Definitions.read text = .error errors) :
    errors ≠ [] ∧ ∀ e ∈ errors, e.Points (Token.lexemes text) text :=
  Reading.points_of_read
    (fun _ => within_of_lexemes_error Token.cut_faithful Token.shows_cut)
    (fun _ => within_of_lexemes_ok Token.cut_faithful)
    (fun xs => Grammar.honest_definitions text (xs.length + 2)) h

end InfraGraph.Definition
