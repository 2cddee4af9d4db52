import InfraGraph.Proofs.Block.Errors
import InfraGraph.Proofs.Text.Lines
import Mathlib.Data.List.Induction

/-!
# Where errors are found again

The place of an error is given as a line and a column. To go there, a reader of the message counts
lines from the start of the text and characters from the start of the line. A text before an offset
is a number of full lines and the start of another one, and reading it reaches the line behind them,
so going to the place ends at the offset again. Each character that is read moves the place on.

## Main results

* `Text.exists_lines` — the lines before an offset, and the place that reading them reaches.
* `Text.Position.offset?_after` — going to the place that a part of a text reaches.
* `Text.Position.after_precedes_iff` — shorter parts reach earlier places.
* `errors_located` — the errors of both languages are found again at their places.
-/

namespace InfraGraph.Text

/-- Full lines and the start of another one. -/
def joinLines (lines : List (List Char)) (start : List Char) : List Char :=
  lines.flatMap (· ++ ['\n']) ++ start

namespace Position

/-- Where a text is after going to a place of it: over the lines before, each with its newline, and
in its line over as many characters as stand before its column. The text must have that line, and
the line that many characters. -/
def offset? (place : Position) (text : List Char) : Option Nat :=
  let lines := splitOn ['\n'] text
  match lines[place.line - 1]? with
  | some line =>
    if place.column - 1 ≤ line.length then
      some (width (joinLines (lines.take (place.line - 1)) (line.take (place.column - 1))))
    else none
  | none => none

/-- A place stands before another one: on an earlier line, or before it on the same line. -/
def Precedes (a b : Position) : Prop := a.line < b.line ∨ a.line = b.line ∧ a.column < b.column

end Position

/-! ## Going to a place -/

private theorem joinLines_cons (line : List Char) (lines : List (List Char)) (start : List Char) :
    joinLines (line :: lines) start = line ++ '\n' :: joinLines lines start := by
  simp [joinLines]

/-- A text consists of full lines and the start of another one, and reading it reaches the line
behind the full ones. -/
theorem exists_lines (cs : List Char) :
    ∃ lines start, cs = joinLines lines start ∧ (∀ line ∈ lines, '\n' ∉ line) ∧ '\n' ∉ start ∧
      Position.after cs = ⟨lines.length + 1, start.length + 1⟩ := by
  induction cs using List.reverseRecOn with
  | nil => exact ⟨[], [], rfl, by simp, by simp, rfl⟩
  | append_singleton cs c ih =>
      obtain ⟨lines, start, hcs, hlines, hstart, hafter⟩ := ih
      by_cases hc : c = '\n'
      · subst hc
        refine ⟨lines ++ [start], [], by simp [joinLines, hcs], ?_, by simp, ?_⟩
        · intro line hline
          rcases List.mem_append.1 hline with hline | hline
          · exact hlines line hline
          · exact List.mem_singleton.1 hline ▸ hstart
        · rw [Position.after_concat, hafter, Position.advance, if_pos rfl]
          simp
      · refine ⟨lines, start ++ [c], by simp [joinLines, hcs], hlines, ?_, ?_⟩
        · intro hmem
          rcases List.mem_append.1 hmem with hmem | hmem
          · exact hstart hmem
          · exact hc (List.mem_singleton.1 hmem).symm
        · rw [Position.after_concat, hafter, Position.advance, if_neg hc]
          simp

/-- A line that has begun goes on up to the next newline. -/
theorem exists_splitOn_append {start : List Char} (hstart : '\n' ∉ start) (behind : List Char) :
    ∃ rest more, (start ++ behind).splitOn '\n' = (start ++ rest) :: more := by
  by_cases hbehind : '\n' ∈ behind
  · obtain ⟨rest, more, rfl, hrest⟩ := List.eq_append_cons_of_mem hbehind
    refine ⟨rest, more.splitOn '\n', ?_⟩
    rw [← List.append_assoc, List.splitOn_append_cons_self_of_not_mem]
    exact fun hmem => (List.mem_append.1 hmem).elim hstart hrest
  · refine ⟨behind, [], List.splitOn_eq_singleton ?_⟩
    exact fun hmem => (List.mem_append.1 hmem).elim hstart hbehind

/-- The lines of a text begin with the full lines before an offset. -/
theorem splitOn_joinLines {lines : List (List Char)} (hlines : ∀ line ∈ lines, '\n' ∉ line)
    (rest : List Char) :
    (joinLines lines rest).splitOn '\n' = lines ++ rest.splitOn '\n' := by
  induction lines with
  | nil => rfl
  | cons line lines ih =>
      obtain ⟨hline, hmore⟩ := List.forall_mem_cons.1 hlines
      rw [joinLines_cons, List.splitOn_append_cons_self_of_not_mem hline, ih hmore,
        List.cons_append]

/-- Going to the place that reading a first part of a text reaches ends behind that part. -/
theorem Position.offset?_after (before behind : List Char) :
    (after before).offset? (before ++ behind) = some (width before) := by
  obtain ⟨lines, start, hbefore, hlines, hstart, hafter⟩ := exists_lines before
  obtain ⟨rest, more, hrest⟩ := exists_splitOn_append hstart behind
  have hsplit : splitOn ['\n'] (before ++ behind) = lines ++ (start ++ rest) :: more := by
    rw [splitOn_singleton, hbefore, joinLines, List.append_assoc]
    exact (splitOn_joinLines hlines (start ++ behind)).trans (congrArg (lines ++ ·) hrest)
  rw [offset?, hsplit, hafter, hbefore]
  simp

/-! ## The order of places -/

namespace Position

variable {a b c : Position}

/-- A place before an earlier one is before the later one. -/
theorem Precedes.trans (hab : a.Precedes b) (hbc : b.Precedes c) : a.Precedes c := by
  unfold Precedes at *
  omega

/-- Of two places, at most one stands before the other. -/
theorem Precedes.asymm (h : a.Precedes b) : ¬ b.Precedes a := by
  unfold Precedes at *
  omega

private theorem precedes_advance (place : Position) (c : Char) :
    place.Precedes (place.advance c) := by
  unfold advance
  split
  · exact .inl (Nat.lt_succ_self _)
  · exact .inr ⟨rfl, Nat.lt_succ_self _⟩

/-- Reading on reaches a later place. -/
theorem precedes_foldl_advance (place : Position) {cs : List Char} (hcs : cs ≠ []) :
    place.Precedes (cs.foldl advance place) := by
  induction cs generalizing place with
  | nil => exact absurd rfl hcs
  | cons c cs ih =>
      have hstep := precedes_advance place c
      by_cases hmore : cs = []
      · subst hmore
        exact hstep
      · exact hstep.trans (ih (place.advance c) hmore)

private theorem after_precedes_of_lt {text xs ys : List Char} (hxs : xs <+: text)
    (hys : ys <+: text) (h : width xs < width ys) : (after xs).Precedes (after ys) := by
  obtain ⟨more, rfl⟩ := prefix_of_width_le hxs hys (Nat.le_of_lt h)
  rw [after, after, List.foldl_append]
  refine precedes_foldl_advance _ fun hmore => ?_
  subst hmore
  rw [List.append_nil] at h
  exact Nat.lt_irrefl _ h

/-- Of two first parts of a text, the shorter one reaches the earlier place. -/
theorem after_precedes_iff {text xs ys : List Char} (hxs : xs <+: text) (hys : ys <+: text) :
    (after xs).Precedes (after ys) ↔ width xs < width ys := by
  refine ⟨fun h => ?_, after_precedes_of_lt hxs hys⟩
  by_contra hle
  rcases Nat.lt_or_eq_of_le (Nat.le_of_not_lt hle) with hlt | heq
  · exact h.asymm (after_precedes_of_lt hys hxs hlt)
  · obtain ⟨more, rfl⟩ := prefix_of_width_le hys hxs (Nat.le_of_eq heq)
    have hzero : width more = 0 := by
      rw [width_append] at heq
      omega
    cases more with
    | nil => exact h.asymm (by simpa using h)
    | cons c more =>
        have hpos := c.utf8Size_pos
        rw [width_cons] at hzero
        omega

end Position

end InfraGraph.Text

namespace InfraGraph

open InfraGraph.Text (Boundary Position width)
open InfraGraph.Reading

/-! ## Errors -/

/-- A text is not read for an error, as definitions or as a code block. -/
def RejectedFor (text : List Char) (e : SyntaxError) : Prop :=
  (∃ errors, Definition.Definitions.read text = .error errors ∧ e ∈ errors) ∨
    ∃ errors, Block.read text = .error errors ∧ e ∈ errors

/-- An error begins between two characters of the text. -/
theorem RejectedFor.boundary {text : List Char} {e : SyntaxError} (h : RejectedFor text e) :
    Boundary text e.span.start := by
  rcases h with ⟨errors, hread, he⟩ | ⟨errors, hread, he⟩
  · exact ((Definition.Definitions.points_of_read hread).2 e he).start
  · exact ((Block.points_of_read hread).2 e he).start

/-- An error is placed where reading the text before it ends. -/
theorem RejectedFor.exists_before {text : List Char} {e : SyntaxError} (h : RejectedFor text e) :
    ∃ before, before <+: text ∧ width before = e.span.start ∧
      e.position text = Position.after before := by
  obtain ⟨before, ⟨behind, rfl⟩, hwidth⟩ := h.boundary
  refine ⟨before, List.prefix_append before behind, hwidth, ?_⟩
  rw [SyntaxError.position, ← hwidth, Position.ofOffset_width]

/-- An error that a text is not read for starts between two characters of it, and going to its place
ends there. Of two such errors of one text, the one that starts earlier has the earlier place. -/
theorem errors_located (text : List Char) (e : SyntaxError) (h : RejectedFor text e) :
    e.span.start ≤ width text ∧ Boundary text e.span.start ∧
      (e.position text).offset? text = some e.span.start ∧
      ∀ e', RejectedFor text e' →
        ((e.position text).Precedes (e'.position text) ↔ e.span.start < e'.span.start) := by
  obtain ⟨before, hbefore, hwidth, hposition⟩ := h.exists_before
  refine ⟨h.boundary.le_width, h.boundary, ?_, fun e' h' => ?_⟩
  · obtain ⟨behind, rfl⟩ := hbefore
    rw [hposition, ← hwidth]
    exact Position.offset?_after before behind
  · obtain ⟨before', hbefore', hwidth', hposition'⟩ := h'.exists_before
    rw [hposition, hposition', ← hwidth, ← hwidth']
    exact Position.after_precedes_iff hbefore hbefore'

/-- Three characters of several widths that cannot be read, on the second line. -/
def wideText : List Char := "components \x7b\n  é€ ?\n\x7d".toList

/-- The second of the characters stands in the fourth column, before the third one. -/
theorem errors_located_wideText :
    ∃ euro mark, RejectedFor wideText euro ∧ RejectedFor wideText mark ∧
      euro.position wideText = ⟨2, 4⟩ ∧ (Position.mk 2 4).offset? wideText = some 17 ∧
      euro.span.start < mark.span.start ∧
      (euro.position wideText).Precedes (mark.position wideText) := by
  have herrors : errorsIn (Definition.Definitions.read wideText) = [⟨⟨15, 17⟩, .stray ['é'], []⟩,
      ⟨⟨17, 20⟩, .stray ['€'], []⟩, ⟨⟨21, 22⟩, .stray ['?'], []⟩] := by
    decide +kernel
  have hread := eq_error_of_errorsIn herrors
  have heuro : RejectedFor wideText ⟨⟨17, 20⟩, .stray ['€'], []⟩ := .inl ⟨_, hread, by decide⟩
  have hmark : RejectedFor wideText ⟨⟨21, 22⟩, .stray ['?'], []⟩ := .inl ⟨_, hread, by decide⟩
  obtain ⟨-, -, hreached, hordered⟩ := errors_located _ _ heuro
  have hplace : SyntaxError.position ⟨⟨17, 20⟩, .stray ['€'], []⟩ wideText = ⟨2, 4⟩ := by
    decide +kernel
  rw [hplace] at hreached
  exact ⟨_, _, heuro, hmark, hplace, hreached, by decide, (hordered _ hmark).2 (by decide)⟩

end InfraGraph
