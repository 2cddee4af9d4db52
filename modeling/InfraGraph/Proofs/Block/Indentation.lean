import InfraGraph.Block.Indentation
import InfraGraph.Proofs.Block.Layout
import InfraGraph.Proofs.Text.Lines

/-!
# Code blocks without their indentation

The indentation of a code block is taken off line by line, and the tokens of a text are found line
by line, provided that no string goes over several lines. So it makes no difference to what a code
block means. What is taken off is as much as the second line is indented, and after that the second
line is not indented any more.

## Main results

* `Unindented` — which spaces are taken off which lines.
* `Token.makes_lines` — the tokens of a text are those of its lines.
* `Token.Makes.withoutFence` — a fence at the end of a text belongs to a comment.
* `normalize_meaning` — a code block without its indentation.
-/

namespace InfraGraph.Block

open Reading (Lexeme Piece fence pieces textOf)
open Text (Trimmed isBlank slice trim)

/-! ## Lines -/

/-- What is taken from a line by unindenting it are spaces. -/
theorem unindent_eq (n : Nat) (line : List Char) :
    line = List.replicate (min (indentation line) n) ' ' ++ unindent n line := by
  have htake : line.take (min (indentation line) n) =
      List.replicate (min (indentation line) n) ' ' := by
    refine List.eq_replicate_iff.2 ⟨?_, fun c hc => ?_⟩
    · have hlength := (List.takeWhile_prefix (p := (· = ' ')) (l := line)).length_le
      rw [List.length_take]
      unfold indentation
      omega
    · have hbegins : line.take (min (indentation line) n) <+: line.takeWhile (· = ' ') := by
        have hwhole := List.prefix_iff_eq_take.1
          (List.takeWhile_prefix (p := (· = ' ')) (l := line))
        rw [hwhole]
        exact List.take_prefix_take_left (Nat.min_le_left _ _)
      simpa using List.mem_takeWhile_imp (hbegins.subset hc)
  rw [unindent, ← htake, List.take_append_drop]

private theorem unindent_suffix (n : Nat) (line : List Char) : unindent n line <:+ line :=
  List.drop_suffix _ _

private theorem unindent_zero (line : List Char) : unindent 0 line = line := by
  rw [unindent, Nat.min_zero, List.drop_zero]

/-- A line without all its indentation is not indented. -/
theorem indentation_unindent (line : List Char) :
    indentation (unindent (indentation line) line) = 0 := by
  have hdrop : (line.takeWhile (· = ' ') ++ line.dropWhile (· = ' ')).drop
      (line.takeWhile (· = ' ')).length = line.dropWhile (· = ' ') := List.drop_left
  rw [List.takeWhile_append_dropWhile] at hdrop
  have hhead := List.head?_dropWhile_not (· = ' ') line
  rw [unindent, Nat.min_self, indentation, indentation, hdrop]
  cases hline : line.dropWhile (· = ' ') with
  | nil => rfl
  | cons c more =>
      rw [hline] at hhead
      rw [List.takeWhile_cons_of_neg (by simpa using hhead)]
      rfl

/-- The lines of a text without the indentation of the second one: the first line is kept, and of
each of the others as many spaces are taken off as it has, but no more than the second has. -/
structure Unindented (lines result : List (List Char)) : Prop where
  length : result.length = lines.length
  first : result.head? = lines.head?
  others : ∀ (k : Nat) (second line : List Char), 1 ≤ k → lines[1]? = some second →
    lines[k]? = some line → ∃ kept, result[k]? = some kept ∧
      line = List.replicate (min (indentation line) (indentation second)) ' ' ++ kept

private theorem unindented_unindentLines (lines : List (List Char)) :
    Unindented lines (unindentLines lines) := by
  match lines with
  | [] => exact ⟨rfl, rfl, fun k second line _ h => by cases h⟩
  | [first] => exact ⟨rfl, rfl, fun k second line _ h => by cases h⟩
  | first :: second :: rest =>
      refine ⟨by simp [unindentLines], rfl, fun k other line hk hsecond hline => ?_⟩
      obtain rfl : second = other := Option.some.inj hsecond
      obtain ⟨k, rfl⟩ : ∃ m, k = m + 1 := ⟨k - 1, by omega⟩
      rw [List.getElem?_cons_succ] at hline
      refine ⟨unindent (indentation second) line, ?_, unindent_eq _ line⟩
      rw [unindentLines, List.getElem?_cons_succ, List.getElem?_map, hline]
      rfl

private theorem unindentLines_unindentLines (lines : List (List Char)) :
    unindentLines (unindentLines lines) = unindentLines lines := by
  match lines with
  | [] => rfl
  | [first] => rfl
  | first :: second :: rest =>
      rw [unindentLines, List.map_cons, unindentLines, indentation_unindent]
      congr 1
      rw [← List.map_cons]
      exact (List.map_congr_left fun line _ => unindent_zero line).trans (List.map_id _)

/-- What holds of a line as it is and without some indentation holds line by line. -/
theorem forall₂_unindentLines {R : List Char → List Char → Prop} (hsame : ∀ line, R line line)
    (hunindent : ∀ n line, R line (unindent n line)) (lines : List (List Char)) :
    List.Forall₂ R lines (unindentLines lines) := by
  match lines with
  | [] => exact .nil
  | [first] => exact .cons (hsame first) .nil
  | first :: second :: rest =>
      refine .cons (hsame first) (List.forall₂_map_right_iff.2 ?_)
      exact List.forall₂_same.2 fun line _ => hunindent _ line

/-- An unindented line is the end of a line of the text. -/
theorem exists_suffix_of_mem_unindentLines {lines : List (List Char)} :
    ∀ line ∈ unindentLines lines, ∃ whole ∈ lines, line <:+ whole := by
  match lines with
  | [] => simp [unindentLines]
  | [first] => exact fun line hline => ⟨line, hline, List.suffix_rfl⟩
  | first :: second :: rest =>
      refine List.forall_mem_cons.2 ⟨⟨first, List.mem_cons_self, List.suffix_rfl⟩,
        List.forall_mem_map.2 fun line hline => ?_⟩
      exact ⟨line, List.mem_cons_of_mem first hline, unindent_suffix _ line⟩

theorem unindentLines_ne_nil {lines : List (List Char)} (h : lines ≠ []) :
    unindentLines lines ≠ [] := by
  match lines with
  | [] => exact h
  | [first] => exact List.cons_ne_nil _ _
  | first :: second :: rest => exact List.cons_ne_nil _ _

private theorem getLast?_unindent {n : Nat} {line : List Char} {c : Char}
    (hlast : line.getLast? = some c)
    (hc : isBlank c = false) : (unindent n line).getLast? = some c := by
  rw [unindent_eq n line, List.getLast?_append] at hlast
  cases hend : (unindent n line).getLast? with
  | none =>
      rw [hend, Option.none_or] at hlast
      have hspace := (List.mem_replicate.1 (List.mem_of_getLast? hlast)).2
      rw [hspace] at hc
      exact absurd hc (by decide)
  | some d => rwa [hend, Option.some_or] at hlast

/-! ## Without fences -/

/-- A text that does not end with a fence is left as it is. -/
theorem withoutFence_eq_self {text : List Char} (h : ¬ fence <:+ text) :
    withoutFence text = text := by
  have hnone : ¬ (['\x60', '\x60', '\x60'] : List Char).isSuffixOf text = true := fun hsuffix =>
    h (List.isSuffixOf_iff_suffix.1 hsuffix)
  rw [withoutFence, if_neg hnone]

section

variable {code : List Char} (hfence : ¬ fence <:+: code)

include hfence

/-- A body without a fence at its end is only trimmed and unindented. -/
theorem normalize_eq_of_fenceless :
    normalize code = ['\n'].intercalate (unindentLines ((trim code).splitOn '\n')) := by
  have hsuffix : ¬ fence <:+ trim code := fun h => hfence (h.isInfix.trans (Text.trim_infix code))
  rw [normalize, withoutFence_eq_self hsuffix, Text.splitOn_singleton]

theorem lines_normalize :
    (normalize code).splitOn '\n' = unindentLines ((trim code).splitOn '\n') := by
  rw [normalize_eq_of_fenceless hfence]
  refine List.splitOn_intercalate '\n' (fun line hline hmem => ?_)
    (unindentLines_ne_nil (List.splitOn_ne_nil _ _))
  obtain ⟨whole, hwhole, hsuffix⟩ := exists_suffix_of_mem_unindentLines line hline
  exact Text.notMem_of_mem_splitOn whole hwhole (hsuffix.subset hmem)

private theorem fenceless_normalize : ¬ fence <:+ normalize code := by
  intro h
  rw [normalize_eq_of_fenceless hfence] at h
  obtain ⟨line, hline, hpart⟩ := Text.exists_suffix_of_intercalate (by decide)
    (unindentLines_ne_nil (List.splitOn_ne_nil _ _)) h
  obtain ⟨whole, hwhole, hsuffix⟩ := exists_suffix_of_mem_unindentLines line hline
  have hline' : whole <:+: trim code := by
    have hinfix := Text.infix_intercalate_of_mem ['\n'] hwhole
    rwa [List.intercalate_splitOn] at hinfix
  exact hfence ((hpart.trans hsuffix).isInfix.trans (hline'.trans (Text.trim_infix code)))

private theorem trimmed_normalize : Trimmed (normalize code) := by
  have htrimmed := Text.trimmed_trim code
  have hlines : ['\n'].intercalate ((trim code).splitOn '\n') = trim code :=
    List.intercalate_splitOn '\n'
  rw [normalize_eq_of_fenceless hfence]
  constructor
  · rw [← hlines] at htrimmed
    match (trim code).splitOn '\n', htrimmed with
    | [], _ => simp [unindentLines]
    | [first], htrimmed => exact htrimmed.first
    | first :: second :: rest, htrimmed =>
        have hfirst := htrimmed.first
        rw [Text.intercalate_cons _ _ (List.cons_ne_nil _ _), List.append_assoc] at hfirst
        rw [unindentLines, Text.intercalate_cons _ _ (by simp), List.append_assoc]
        cases first with
        | nil => exact absurd (hfirst '\n' rfl) (by decide)
        | cons c cs => exact hfirst
  · intro c hc
    cases hend : (trim code).getLast? with
    | none =>
        rw [List.getLast?_eq_none_iff.1 hend] at hc
        cases hc
    | some d =>
        have hd := htrimmed.last d hend
        have hnewline : ¬ isBlank '\n' = false := by decide
        have hends := forall₂_unindentLines
          (R := fun line other => ∀ c, line.getLast? = some c → isBlank c = false →
            other.getLast? = some c)
          (fun _ _ h _ => h) (fun n _ _ h hc => getLast?_unindent h hc) ((trim code).splitOn '\n')
        have hsame := Text.getLast?_intercalate hnewline hends (by rwa [hlines]) hd
        rw [hsame] at hc
        rw [← Option.some.inj hc]
        exact hd

private theorem normalize_normalize : normalize (normalize code) = normalize code := by
  have hagain : normalize (normalize code) =
      ['\n'].intercalate (unindentLines ((normalize code).splitOn '\n')) := by
    rw [normalize, Text.trim_eq_self (trimmed_normalize hfence),
      withoutFence_eq_self (fenceless_normalize hfence), Text.splitOn_singleton]
  rw [hagain, lines_normalize hfence, unindentLines_unindentLines,
    ← normalize_eq_of_fenceless hfence]

end

namespace Token

/-! ## Tokens line by line -/

/-- In the pieces of a text, a newline stands alone. -/
def LineByLine (text : List Char) : Prop := ∀ p ∈ pieces cut text, p.text = ['\n'] ∨ '\n' ∉ p.text

variable {text line more : List Char} {ts : List Token}

private theorem pieces_append_newline
    (hflawless : Reading.Flawless (pieces cut (line ++ '\n' :: more)))
    (hlines : LineByLine (line ++ '\n' :: more)) :
    pieces cut (line ++ '\n' :: more) = pieces cut line ++ pieces cut ('\n' :: more) := by
  rcases Reading.pieces_append_cases cut_faithful cut_cancels hflawless with hboth |
    ⟨ps, start, p, stop, qs, h⟩
  · exact hboth
  · -- A piece astride the end of the line would have the newline and something before it.
    obtain ⟨d, ds, hstop⟩ := List.exists_cons_of_ne_nil h.stop_ne_nil
    have hafter := h.after_eq
    rw [hstop, List.cons_append] at hafter
    obtain ⟨rfl, -⟩ := List.cons.inj hafter
    rcases hlines p h.mem with halone | hnone
    · have hlength := congrArg List.length (h.text_eq.symm.trans halone)
      have hpos := List.length_pos_iff.2 h.start_ne_nil
      rw [hstop, List.length_append, List.length_cons, List.length_singleton] at hlength
      omega
    · rw [h.text_eq, hstop] at hnone
      exact absurd (List.mem_append_right start List.mem_cons_self) hnone

/-- If lines make the same tokens as others, then so do the texts that consist of them. -/
theorem makes_lines {lines others : List (List Char)}
    (h : List.Forall₂ (fun line other => ∀ ts, Makes line ts → Makes other ts) lines others)
    (hlines : LineByLine (['\n'].intercalate lines))
    (hmakes : Makes (['\n'].intercalate lines) ts) : Makes (['\n'].intercalate others) ts := by
  induction h generalizing ts with
  | nil => exact hmakes
  | @cons line other lines others hline hmore ih =>
      cases hmore with
      | nil =>
          rw [List.intercalate_singleton] at hmakes ⊢
          exact hline ts hmakes
      | @cons next second lines others hnext hmore =>
          rw [Text.intercalate_cons _ _ (List.cons_ne_nil _ _), List.append_assoc,
            List.singleton_append] at hmakes hlines ⊢
          have hpieces := pieces_append_newline hmakes.flawless hlines
          obtain ⟨us, vs, hus, hvs, rfl⟩ := (makes_append_iff hpieces).1 hmakes
          obtain ⟨ws, hws, rfl⟩ := (makes_separator (.inl rfl)).1 hvs
          have hbehind : LineByLine (['\n'].intercalate (next :: lines)) := fun p hp => hlines p (by
            rw [hpieces, Reading.pieces_cons cut_faithful]
            exact List.mem_append_right _ (List.mem_cons_of_mem _ hp))
          have hnewline : BreaksLine ('\n' :: ['\n'].intercalate (second :: others)) :=
            fun c more hcons => (List.cons.inj hcons).1.symm
          exact (hline us hus).append ((makes_separator (.inl rfl)).2 ⟨ws, ih hbehind hws, rfl⟩)
            hnewline.breaks fun _ _ _ => hnewline

private theorem Makes.unindent (h : Makes line ts) (n : Nat) : Makes (unindent n line) ts := by
  rw [unindent_eq n line] at h
  refine (makes_blanks fun c hc => ?_).1 h
  rw [(List.mem_replicate.1 hc).2]
  rfl

/-- The indentation of a text makes no tokens. -/
theorem Makes.unindentLines {lines : List (List Char)} (h : Makes (['\n'].intercalate lines) ts)
    (hlines : LineByLine (['\n'].intercalate lines)) :
    Makes (['\n'].intercalate (unindentLines lines)) ts :=
  makes_lines (forall₂_unindentLines (fun _ _ h => h) (fun n _ _ h => h.unindent n) lines) hlines h

/-! ## Fences -/

private theorem eq_of_mem_fence {c : Char} (hc : c ∈ fence) : c = '\x60' := by
  simpa [fence] using hc

/-- A piece whose text ends with backticks is a comment. -/
theorem comment_of_backtick {p : Piece Token} {rest start stop : List Char}
    (hcut : Reading.CutOff cut p rest) (hp : ∀ cause shown, p.kind ≠ .fault cause shown)
    (htext : p.text = start ++ stop) (hne : stop ≠ []) (hstop : ∀ c ∈ stop, c = '\x60') :
    IsComment p := by
  have hlast : ∃ body, p.text = body ++ ['\x60'] := by
    rcases List.eq_nil_or_concat stop with hnil | ⟨ds, d, rfl⟩
    · exact absurd hnil hne
    · refine ⟨start ++ ds, ?_⟩
      rw [htext, hstop d (by simp), List.concat_eq_append, List.append_assoc]
  obtain ⟨body, hbody⟩ := hlast
  have hmem : '\x60' ∈ p.text := by simp [hbody]
  have hdescribed := described_of_cutOff hcut
  unfold Described at hdescribed
  cases hkind : p.kind with
  | fault cause shown => exact absurd hkind (hp cause shown)
  | gap =>
      rw [hkind] at hdescribed
      rcases hdescribed with hblanks | ⟨body, hcomment, -⟩
      · exact absurd (hblanks _ hmem) (by decide)
      · rw [IsComment, hcomment]
        rfl
  | token t =>
      rw [hkind] at hdescribed
      cases t with
      | separator => rcases hdescribed with h | h <;> simp [h] at hmem
      | string s =>
          obtain ⟨quote, inside, hquote, hinside⟩ := hdescribed
          have hsame := (List.append_inj' (hbody.symm.trans hinside) rfl).2
          rcases hquote with rfl | rfl <;> simp at hsame
      | symbol s => exact absurd rfl (hdescribed _ hmem).2
      | name s => exact absurd rfl (hdescribed _ hmem).2
      | int n => exact absurd rfl (hdescribed _ hmem).2
      | float x => exact absurd rfl (hdescribed _ hmem).2

/-- A fence at the end of a text is the end of a comment. -/
theorem exists_comment_of_fence (h : Reading.Flawless (pieces cut (text ++ fence))) :
    ∃ ps start, '\n' ∉ start ∧ pieces cut text = ps ++ [⟨start, .gap⟩] ∧
      pieces cut (text ++ fence) = ps ++ [⟨start ++ fence, .gap⟩] := by
  rcases Reading.pieces_append_cases cut_faithful cut_cancels h with hboth |
    ⟨ps, start, p, stop, qs, hastride⟩
  · -- A fence alone is not accepted.
    have hfault :
        (⟨['\x60'], .fault (.stray ['\x60']) ['\x60']⟩ : Piece Token) ∈ pieces cut fence :=
      List.mem_cons_self
    rw [hboth] at h
    exact absurd rfl (h _ (List.mem_append_right _ hfault) _ _)
  · have hfence := hastride.after_eq
    have hcomment := comment_of_backtick hastride.cutOff (h p hastride.mem) hastride.text_eq
      hastride.stop_ne_nil fun c hc => eq_of_mem_fence (hfence ▸ List.mem_append_left _ hc)
    obtain ⟨hkind, ⟨body, hbody, hnewline⟩, hrest⟩ := comment_of_cutOff hastride.cutOff hcomment
    have hnil : textOf qs = [] := by
      cases hqs : textOf qs with
      | nil => rfl
      | cons c more =>
          have hc : c ∈ fence := by
            rw [hfence, hqs]
            exact List.mem_append_right _ List.mem_cons_self
          exact absurd (hrest c more hqs) (by rw [eq_of_mem_fence hc]; decide)
    have hnone : qs = [] := by
      cases qs with
      | nil => rfl
      | cons q qs =>
          have hq : q ∈ pieces cut (text ++ fence) := by
            rw [hastride.pieces_whole]
            exact List.mem_append_right ps (List.mem_cons_of_mem p List.mem_cons_self)
          rw [Reading.textOf_cons] at hnil
          exact absurd (List.append_eq_nil_iff.1 hnil).1
            (Reading.text_ne_nil_of_mem_pieces cut_faithful q hq)
    subst hnone
    rw [hnil, List.append_nil] at hfence
    subst hfence
    have htext := hastride.text_eq
    obtain ⟨c, cs, rfl⟩ := List.exists_cons_of_ne_nil hastride.start_ne_nil
    rw [hbody, List.cons_append] at htext
    obtain ⟨rfl, rfl⟩ := List.cons.inj htext
    have hcs : '\n' ∉ cs := fun hmem => hnewline (List.mem_append_left _ hmem)
    refine ⟨ps, '#' :: cs, ?_, ?_, ?_⟩
    · intro hmem
      rcases List.mem_cons.1 hmem with h | h
      · cases h
      · exact hcs h
    · rw [hastride.pieces_before, pieces_comment hcs]
    · rw [hastride.pieces_whole, ← hkind, ← hastride.text_eq]

/-- A fence at the end holds no tokens. -/
theorem Makes.withoutFence (h : Makes text ts) (hlines : LineByLine text) :
    Makes (withoutFence text) ts ∧ LineByLine (withoutFence text) := by
  by_cases hfence : fence <:+ text
  · obtain ⟨before, rfl⟩ := hfence
    have hwithout : Block.withoutFence (before ++ fence) = before := by
      have hsuffix : ['\x60', '\x60', '\x60'].isSuffixOf (before ++ fence) = true :=
        List.isSuffixOf_iff_suffix.2 (List.suffix_append before fence)
      have hlength : (before ++ fence).length - 3 = before.length := by simp [fence]
      rw [Block.withoutFence, if_pos hsuffix, hlength, List.take_left]
    obtain ⟨hflawless, rfl⟩ := h
    obtain ⟨ps, start, hnewline, hpieces, hwhole⟩ := exists_comment_of_fence hflawless
    rw [hwithout]
    rw [hwhole] at hflawless
    refine ⟨⟨?_, ?_⟩, ?_⟩
    · rw [hpieces]
      refine List.forall_mem_append.2 ⟨(List.forall_mem_append.1 hflawless).1, ?_⟩
      exact List.forall_mem_singleton.2 fun _ _ h => by cases h
    · rw [hpieces, hwhole, List.filterMap_append, List.filterMap_append]
      rfl
    · unfold LineByLine at hlines ⊢
      rw [hwhole] at hlines
      rw [hpieces]
      refine List.forall_mem_append.2 ⟨(List.forall_mem_append.1 hlines).1, ?_⟩
      exact List.forall_mem_singleton.2 (.inr hnewline)
  · rw [withoutFence_eq_self hfence]
    exact ⟨h, hlines⟩

/-! ## Strings -/

private theorem mem_dropSeparators {x : Lexeme Token} {xs : List (Lexeme Token)} (hx : x ∈ xs)
    (ht : x.token ≠ separator) (depth : Nat) (fresh : Bool) :
    x ∈ dropSeparators depth fresh xs := by
  induction xs generalizing depth fresh with
  | nil => cases hx
  | cons y ys ih =>
      by_cases hy : y.token = separator
      · have hmore : x ∈ ys := by
          rcases List.mem_cons.1 hx with rfl | hmore
          · exact absurd hy ht
          · exact hmore
        rw [dropSeparators_separator hy]
        split
        · exact ih hmore depth fresh
        · exact List.mem_cons_of_mem y (ih hmore depth true)
      · rw [dropSeparators_cons hy]
        rcases List.mem_cons.1 hx with rfl | hmore
        · exact List.mem_cons_self
        · exact List.mem_cons_of_mem y (ih hmore _ _)

/-- If no string of a text goes over several lines, then no piece of it does. -/
theorem lineByLine_of_lexemes {xs : List (Lexeme Token)} (hxs : lexemes text = .ok xs)
    (hstrings : ∀ x ∈ xs, ∀ s, x.token = .string s → '\n' ∉ slice x.span text) :
    LineByLine text := by
  obtain ⟨raw, hraw, rfl⟩ := exists_dropped_of_lexemes hxs
  have hflawless := Reading.flawless_of_lexemes hraw
  intro p hp
  have hdescribed : ∃ rest, Described p rest := by
    obtain ⟨c, more, rfl⟩ := Reading.exists_cut_of_mem_piecesUpTo hp
    exact ⟨_, described_cut c more⟩
  obtain ⟨rest, hdescribed⟩ := hdescribed
  unfold Described at hdescribed
  cases hkind : p.kind with
  | fault cause shown => exact absurd hkind (hflawless p hp cause shown)
  | gap =>
      rw [hkind] at hdescribed
      right
      rcases hdescribed with hblanks | ⟨body, htext, hbody, -⟩
      · exact fun hmem => absurd (hblanks _ hmem) (by decide)
      · rw [htext]
        intro hmem
        rcases List.mem_cons.1 hmem with h | h
        · cases h
        · exact hbody h
  | token t =>
      rw [hkind] at hdescribed
      cases t with
      | separator =>
          rcases hdescribed with h | h
          · exact .inl h
          · right
            simp [h]
      | string s =>
          have hx := Reading.exists_lexeme_of_mem_pieces [] hp hkind
          rw [List.nil_append, Reading.textOf_pieces cut_faithful, Text.width_nil,
            ← Reading.eq_lexemesFrom_of_lexemes hraw] at hx
          obtain ⟨x, hx, ht, hslice⟩ := hx
          have hkept := mem_dropSeparators hx (by rw [ht]; exact fun h => by cases h) 0 true
          rw [← hslice]
          exact .inr (hstrings x hkept s ht)
      | symbol s => exact .inr fun hmem => absurd rfl (hdescribed _ hmem).1
      | name s => exact .inr fun hmem => absurd rfl (hdescribed _ hmem).1
      | int n => exact .inr fun hmem => absurd rfl (hdescribed _ hmem).1
      | float x => exact .inr fun hmem => absurd rfl (hdescribed _ hmem).1

end Token

/-- Without its indentation, a code block has the same tokens as when it is only trimmed, if none of
its strings goes over several lines. If there is no fence in it, then nothing more is taken off the
second time, and what is taken off is the indentation of the second line, from that line on. -/
theorem normalize_meaning (code : List Char) :
    (∀ xs, Token.lexemes (trim code) = .ok xs →
      (∀ x ∈ xs, ∀ s, x.token = .string s → '\n' ∉ slice x.span (trim code)) →
      ∃ ys, Token.lexemes (normalize code) = .ok ys ∧
        ys.map Lexeme.token = xs.map Lexeme.token) ∧
    (¬ fence <:+: code → normalize (normalize code) = normalize code ∧
      Unindented ((trim code).splitOn '\n') ((normalize code).splitOn '\n')) := by
  refine ⟨fun xs hxs hstrings => ?_, fun hfence => ⟨normalize_normalize hfence, ?_⟩⟩
  · refine Token.exists_lexemes_of_makes hxs fun ts hmakes => ?_
    obtain ⟨hkept, hlines⟩ := hmakes.withoutFence (Token.lineByLine_of_lexemes hxs hstrings)
    have hwhole : ['\n'].intercalate ((withoutFence (trim code)).splitOn '\n') =
        withoutFence (trim code) := List.intercalate_splitOn '\n'
    rw [← hwhole] at hkept hlines
    rw [normalize, Text.splitOn_singleton]
    exact hkept.unindentLines hlines
  · rw [lines_normalize hfence]
    exact unindented_unindentLines _

/-- A call over two lines and a statement behind it, indented. -/
def indentedText : List Char := " f(\n    1)\n  x = \"a\" # b\n".toList

theorem normalize_meaning_indented :
    (∃ xs, Token.lexemes (trim indentedText) = .ok xs ∧ xs.length = 8 ∧
      ∃ ys, Token.lexemes (normalize indentedText) = .ok ys ∧
        ys.map Lexeme.token = xs.map Lexeme.token) ∧
    normalize (normalize indentedText) = normalize indentedText ∧
    Unindented ((trim indentedText).splitOn '\n') ((normalize indentedText).splitOn '\n') := by
  have hcomputed : (Token.lexemes (trim indentedText)).toOption.map (fun xs =>
      (xs.length, xs.all fun x => match x.token with
        | .string _ => '\n' ∉ slice x.span (trim indentedText)
        | _ => true)) = some (8, true) := by
    decide +kernel
  have hfence : ¬ fence <:+: indentedText := fun h =>
    absurd (h.subset List.mem_cons_self) (by decide)
  obtain ⟨hsame, hagain⟩ := normalize_meaning indentedText
  cases hxs : Token.lexemes (trim indentedText) with
  | error faults =>
      rw [hxs] at hcomputed
      cases hcomputed
  | ok xs =>
      rw [hxs] at hcomputed
      obtain ⟨hlength, hall⟩ := Prod.mk.inj (Option.some.inj hcomputed)
      refine ⟨⟨xs, rfl, hlength, hsame xs hxs fun x hx s hs => ?_⟩, hagain hfence⟩
      have hx := List.all_eq_true.1 hall x hx
      rw [hs] at hx
      exact of_decide_eq_true hx

end InfraGraph.Block
