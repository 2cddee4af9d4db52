import InfraGraph.Text.Blank
import InfraGraph.Text.Search
import Mathlib.Data.List.Forall2

/-!
# Lines

Splitting a text at a separator of one character is what the library calls splitting a list, so what
is known of lists holds of lines. A line has no newline in it. A text that has been trimmed neither
begins nor ends with a blank, and so do its first line and its last line.

## Main results

* `splitOn_singleton` — the pieces at a separator of one character.
* `notMem_of_mem_splitOn` — none of the pieces contains the separator.
* `exists_suffix_of_intercalate` — what a text ends with, its last line ends with.
* `trim_eq_self`, `trimmed_trim` — texts without blanks at their ends.
-/

namespace InfraGraph.Text

private theorem splitFrom_singleton (x : Char) (piece cs : List Char) :
    splitFrom [x] 0 piece cs = List.splitOnPPrepend (· == x) cs piece := by
  induction cs generalizing piece with
  | nil => rfl
  | cons c cs ih =>
      rw [splitFrom, List.splitOnPPrepend_cons_eq_if]
      by_cases hc : c = x
      · subst hc
        have hmore : splitFrom [c] 0 [] cs = List.splitOnP (· == c) cs := ih []
        simp [List.isPrefixOf, hmore]
      · have hx : ¬ x = c := Ne.symm hc
        simp [List.isPrefixOf, hc, hx, ih]

/-- Splitting at one character is the splitting of the library. -/
theorem splitOn_singleton (x : Char) (cs : List Char) : splitOn [x] cs = cs.splitOn x :=
  splitFrom_singleton x [] cs

/-- No line holds the character at which it was split. -/
theorem notMem_of_mem_splitOn {x : Char} {cs : List Char} :
    ∀ line ∈ cs.splitOn x, x ∉ line := by
  induction cs with
  | nil => simp
  | cons c cs ih =>
      rw [List.splitOn_cons_eq_if_modifyHead]
      split
      · exact List.forall_mem_cons.2 ⟨List.not_mem_nil, ih⟩
      · rename_i hc
        have hne : x ≠ c := fun h => hc (by rw [h, beq_self_eq_true])
        cases hlines : cs.splitOn x with
        | nil => exact absurd hlines (List.splitOn_ne_nil x cs)
        | cons line lines =>
            rw [hlines] at ih
            obtain ⟨hline, hmore⟩ := List.forall_mem_cons.1 ih
            refine List.forall_mem_cons.2 ⟨fun hmem => ?_, hmore⟩
            rcases List.mem_cons.1 hmem with h | h
            · exact hne h
            · exact hline h

/-! ## Parts of lines -/

theorem infix_intercalate_of_mem (sep : List Char) {line : List Char} {lines : List (List Char)}
    (h : line ∈ lines) : line <:+: sep.intercalate lines := by
  induction lines with
  | nil => cases h
  | cons first more ih =>
      by_cases hmore : more = []
      · subst hmore
        rw [List.mem_singleton.1 h]
        exact ⟨[], [], by simp [List.intercalate]⟩
      · rw [intercalate_cons _ _ hmore]
        rcases List.mem_cons.1 h with rfl | h
        · exact ⟨[], sep ++ sep.intercalate more, by simp⟩
        · exact (ih h).trans (List.suffix_append _ _).isInfix

private theorem suffix_of_suffix_append_cons {x : Char} {part before behind : List Char}
    (hx : x ∉ part) (h : part <:+ before ++ x :: behind) : part <:+ behind := by
  have hbehind : x :: behind <:+ before ++ x :: behind := List.suffix_append before (x :: behind)
  rcases List.suffix_or_suffix_of_suffix h hbehind with hpart | hpart
  · rcases List.suffix_cons_iff.1 hpart with rfl | hpart
    · exact absurd List.mem_cons_self hx
    · exact hpart
  · exact absurd (hpart.subset List.mem_cons_self) hx

/-- What a text ends with, one of its lines ends with, if it has no newline. -/
theorem exists_suffix_of_intercalate {x : Char} {part : List Char} (hx : x ∉ part)
    {lines : List (List Char)} (hne : lines ≠ []) (h : part <:+ [x].intercalate lines) :
    ∃ line ∈ lines, part <:+ line := by
  induction lines with
  | nil => exact absurd rfl hne
  | cons first more ih =>
      by_cases hmore : more = []
      · subst hmore
        refine ⟨first, List.mem_cons_self, ?_⟩
        simpa [List.intercalate] using h
      · rw [intercalate_cons _ _ hmore, List.append_assoc, List.singleton_append] at h
        obtain ⟨line, hline, hpart⟩ := ih hmore (suffix_of_suffix_append_cons hx h)
        exact ⟨line, List.mem_cons_of_mem first hline, hpart⟩

/-- A text ends as its last line does, whatever the other lines are. -/
theorem getLast?_intercalate {x : Char} {P : Char → Prop} (hx : ¬ P x)
    {lines others : List (List Char)}
    (h : List.Forall₂ (fun line other => ∀ c, line.getLast? = some c → P c →
      other.getLast? = some c) lines others)
    {c : Char} (hlast : ([x].intercalate lines).getLast? = some c) (hc : P c) :
    ([x].intercalate others).getLast? = some c := by
  induction h with
  | nil => exact hlast
  | @cons line other lines others hline hmore ih =>
      cases hmore with
      | nil =>
          simp only [List.intercalate, List.intersperse_singleton, List.flatten_singleton]
            at hlast ⊢
          exact hline c hlast hc
      | @cons next second lines others hnext hmore =>
          rw [intercalate_cons _ _ (List.cons_ne_nil _ _), List.getLast?_append] at hlast ⊢
          cases hend : ([x].intercalate (next :: lines)).getLast? with
          | none =>
              rw [hend, Option.none_or, List.getLast?_concat] at hlast
              obtain rfl := Option.some.inj hlast
              exact absurd hc hx
          | some d =>
              rw [hend, Option.some_or] at hlast
              rw [ih (hend.trans hlast), Option.some_or]

/-! ## Trimmed texts -/

/-- A text neither begins nor ends with a blank. -/
structure Trimmed (cs : List Char) : Prop where
  first : ∀ c, cs.head? = some c → isBlank c = false
  last : ∀ c, cs.getLast? = some c → isBlank c = false

private theorem dropWhile_eq_self {p : Char → Bool} {cs : List Char}
    (h : ∀ c, cs.head? = some c → p c = false) : cs.dropWhile p = cs := by
  cases cs with
  | nil => rfl
  | cons c cs => rw [List.dropWhile_cons, if_neg (by rw [h c rfl]; decide)]

/-- A trimmed text is not trimmed again. -/
theorem trim_eq_self {cs : List Char} (h : Trimmed cs) : trim cs = cs := by
  have hreverse : ∀ c, cs.reverse.head? = some c → isBlank c = false := by
    rw [List.head?_reverse]
    exact h.last
  rw [trim, trimStart, dropWhile_eq_self h.first, trimEnd, dropWhile_eq_self hreverse,
    List.reverse_reverse]

private theorem isBlank_head?_dropWhile (cs : List Char) :
    ∀ c, (cs.dropWhile isBlank).head? = some c → isBlank c = false := by
  intro c hc
  have hhead := List.head?_dropWhile_not isBlank cs
  rw [hc] at hhead
  simpa using hhead

theorem trimEnd_begins (cs : List Char) : trimEnd cs <+: cs := by
  have hsuffix := List.dropWhile_suffix (p := isBlank) (l := cs.reverse)
  have hbegins := List.reverse_prefix.2 hsuffix
  rwa [List.reverse_reverse] at hbegins

/-- Trimming gives a trimmed text. -/
theorem trimmed_trim (cs : List Char) : Trimmed (trim cs) where
  first := by
    intro c hc
    obtain ⟨more, hmore⟩ := trimEnd_begins (trimStart cs)
    refine isBlank_head?_dropWhile cs c ?_
    have hstart : trim cs ++ more = cs.dropWhile isBlank := hmore
    rw [← hstart, List.head?_append, hc]
    rfl
  last := by
    intro c hc
    rw [trim, trimEnd, List.getLast?_reverse] at hc
    exact isBlank_head?_dropWhile _ c hc

/-- Trimming leaves a part of the text. -/
theorem trim_infix (cs : List Char) : trim cs <:+: cs :=
  (trimEnd_begins (trimStart cs)).isInfix.trans (List.dropWhile_suffix _).isInfix

end InfraGraph.Text
