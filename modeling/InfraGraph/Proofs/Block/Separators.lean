import InfraGraph.Proofs.Block.Alike
import InfraGraph.Proofs.Block.Layout

/-!
# Separators that mean nothing

Between the tokens of a code block there are places where a newline or a semicolon makes no
difference: there it is dropped, or another one beside it is dropped in its place, or it stands
behind the last statement.

## Main results

* `Token.Idle` — the places between tokens where a separator means nothing.
* `Token.dropSeparators_insert` — what is left of tokens with another separator among them.
* `Token.makes_parts` — a text divided between its tokens.
* `read_insert_separator` — a newline or a semicolon that means nothing.
-/

namespace InfraGraph.Block

open Reading (Astride Lexeme Piece lexemesFrom pieces textOf)
open Reading.Reader (result)
open Text (width)

namespace Token

/-! ## Dropping on -/

/-- What decides about the next separator, after a token: the bracket depth, and whether the last
token kept is a separator or there is none. -/
def advance (state : Nat × Bool) : Token → Nat × Bool
  | separator => (state.1, state.2 || state.1 == 0)
  | t => (depthAfter state.1 t, false)

theorem advance_of_ne {t : Token} (ht : t ≠ separator) (state : Nat × Bool) :
    advance state t = (depthAfter state.1 t, false) := by
  cases t with
  | separator => exact absurd rfl ht
  | _ => rfl

variable {x : Lexeme Token} {xs ys : List (Lexeme Token)} {depth : Nat} {fresh : Bool}

private theorem dropSeparators_step (depth : Nat) (fresh : Bool) (x : Lexeme Token)
    (ys : List (Lexeme Token)) :
    dropSeparators depth fresh (x :: ys) = dropSeparators depth fresh [x] ++
      dropSeparators (advance (depth, fresh) x.token).1 (advance (depth, fresh) x.token).2 ys := by
  by_cases hx : x.token = separator
  · rw [dropSeparators_separator hx, dropSeparators_separator hx, hx, advance]
    by_cases hdropped : 0 < depth ∨ fresh = true
    · rw [if_pos hdropped, if_pos hdropped]
      rcases hdropped with hdepth | rfl
      · have hne : (depth == 0) = false := by simpa using Nat.ne_of_gt hdepth
        rw [hne, Bool.or_false]
        rfl
      · rfl
    · obtain ⟨hdepth, hfresh⟩ := not_or.1 hdropped
      obtain rfl := Nat.eq_zero_of_not_pos hdepth
      obtain rfl : fresh = false := Bool.eq_false_iff.2 hfresh
      rfl
  · rw [dropSeparators_cons hx, dropSeparators_cons hx, advance_of_ne hx]
    rfl

private theorem dropSeparators_run (depth : Nat) (fresh : Bool) (xs ys : List (Lexeme Token)) :
    dropSeparators depth fresh (xs ++ ys) = dropSeparators depth fresh xs ++
      dropSeparators ((xs.map Lexeme.token).foldl advance (depth, fresh)).1
        ((xs.map Lexeme.token).foldl advance (depth, fresh)).2 ys := by
  induction xs generalizing depth fresh with
  | nil => rfl
  | cons x xs ih =>
      rw [List.cons_append, dropSeparators_step, ih, dropSeparators_step depth fresh x xs,
        List.append_assoc]
      rfl

/-! ## Places between tokens -/

/-- Whether a token opens a bracket of any kind. -/
def opens : Token → Bool
  | symbol s => s.opens
  | _ => false

/-- Whether a token closes a bracket of any kind. -/
def closes : Token → Bool
  | symbol s => s.closes
  | _ => false

/-- The bracket depth does not fall below the number of brackets that are open. -/
theorem countP_opens_le (ts : List Token) (state : Nat × Bool) :
    state.1 + ts.countP opens ≤ (ts.foldl advance state).1 + ts.countP closes := by
  induction ts generalizing state with
  | nil => exact Nat.le_refl _
  | cons t ts ih =>
      have hstep : state.1 + [t].countP opens ≤ (advance state t).1 + [t].countP closes := by
        cases t with
        | symbol s =>
            rw [advance_of_ne (by simp)]
            by_cases hopens : s.opens = true
            · simp [depthAfter, opens, hopens]
            · by_cases hcloses : s.closes = true
              · simp [depthAfter, opens, closes, hopens, hcloses]
                omega
              · simp [depthAfter, opens, closes, hopens, hcloses]
        | _ => exact Nat.le_refl _
      have hmore := ih (advance state t)
      rw [← List.singleton_append, List.countP_append, List.countP_append, List.foldl_append,
        List.foldl_cons, List.foldl_nil]
      omega

/-- Between these tokens, a separator means nothing: it is the first or the last of all tokens, it
stands beside another one, or more brackets have been opened before it than closed. -/
def Idle (before behind : List Token) : Prop :=
  before = [] ∨ behind = [] ∨ before.getLast? = some separator ∨ behind.head? = some separator ∨
    before.countP closes < before.countP opens

/-- Where a separator means nothing, it is dropped, or it is the last token, or another one
follows. -/
theorem Idle.cases {before behind : List Token} (h : Idle before behind) :
    (0 < (before.foldl advance (0, true)).1 ∨ (before.foldl advance (0, true)).2 = true) ∨
      behind = [] ∨ behind.head? = some separator := by
  rcases h with rfl | hend | hlast | hnext | hopen
  · exact .inl (.inr rfl)
  · exact .inr (.inl hend)
  · obtain ⟨ts, rfl⟩ := List.getLast?_eq_some_iff.1 hlast
    left
    rw [List.foldl_append, List.foldl_cons, List.foldl_nil, advance]
    cases (ts.foldl advance (0, true)).1 with
    | zero => exact .inr (Bool.or_true _)
    | succ n => exact .inl (Nat.succ_pos n)
  · exact .inr (.inr hnext)
  · have hdepth := countP_opens_le before (0, true)
    left
    left
    omega

private theorem Divides.endsStatement (h : Divides xs) : Grammar.EndsStatement xs := by
  obtain ⟨ws, x, rfl⟩ := List.eq_nil_or_concat xs |>.resolve_left h.notFirst
  have hlast : (ws.concat x).getLast? = some x := by simp
  exact ⟨x, hlast, h.notDouble x hlast⟩

/-- Another separator where it means nothing: it makes no difference to the tokens that are left, or
it is left behind the last one, which is no separator. -/
theorem dropSeparators_insert {zs : List (Lexeme Token)}
    (hzs : zs.map Lexeme.token = xs.map Lexeme.token ++ separator :: ys.map Lexeme.token)
    (hidle : Idle (xs.map Lexeme.token) (ys.map Lexeme.token)) :
    (dropSeparators 0 true zs).map Lexeme.token =
        (dropSeparators 0 true (xs ++ ys)).map Lexeme.token ∨
      Grammar.EndsStatement (dropSeparators 0 true (xs ++ ys)) ∧
        (dropSeparators 0 true zs).map Lexeme.token =
          (dropSeparators 0 true (xs ++ ys)).map Lexeme.token ++ [separator] := by
  have hcases := hidle.cases
  have hsame : zs.map Lexeme.token =
      (xs ++ (⟨separator, 0, 0⟩ : Lexeme Token) :: ys).map Lexeme.token := by
    rw [hzs, List.map_append, List.map_cons]
  have hrun := dropSeparators_run 0 true xs
  rw [map_token_dropSeparators hsame 0 true]
  generalize (xs.map Lexeme.token).foldl advance (0, true) = state at hcases hrun
  obtain ⟨depth, fresh⟩ := state
  dsimp only at hcases hrun
  by_cases hdropped : 0 < depth ∨ fresh = true
  · left
    rw [hrun, hrun, dropSeparators_separator rfl, if_pos hdropped]
  rcases hcases with h | hend | hnext
  · exact absurd h hdropped
  · -- It is left behind the last token.
    obtain rfl := List.map_eq_nil_iff.1 hend
    have hkept := hrun [(⟨separator, 0, 0⟩ : Lexeme Token)]
    rw [dropSeparators_separator rfl, if_neg hdropped] at hkept
    right
    rw [List.append_nil, hkept]
    exact ⟨(divides_of_dropSeparators rfl hkept).endsStatement, List.map_append⟩
  · -- It is left in the place of the next one.
    obtain ⟨y, ys, rfl⟩ : ∃ y more, ys = y :: more := by
      cases ys with
      | nil => cases hnext
      | cons y ys => exact ⟨y, ys, rfl⟩
    have hy : y.token = separator := Option.some.inj hnext
    left
    rw [hrun, hrun, dropSeparators_separator rfl, if_neg hdropped, dropSeparators_separator hy,
      if_pos (.inr rfl), dropSeparators_separator hy, if_neg hdropped, List.map_append,
      List.map_append, List.map_cons, List.map_cons, hy]

/-! ## In a text -/

variable {before after : List Char}

/-- Where a text is divided between two pieces, the line ends behind a comment. -/
theorem makes_divided
    (hboth : pieces cut (before ++ after) = pieces cut before ++ pieces cut after)
    (hflawless : Reading.Flawless (pieces cut (before ++ after))) :
    Makes before ((pieces cut before).filterMap Piece.token?) ∧
      Makes after ((pieces cut after).filterMap Piece.token?) ∧
      ∀ p, (pieces cut before).getLast? = some p → IsComment p → BreaksLine after := by
  have hcut := Reading.cutsOff_pieces cut_faithful (before ++ after)
  have hafter : textOf (pieces cut after) = after := Reading.textOf_pieces cut_faithful after
  rw [hboth] at hflawless hcut
  obtain ⟨hps, hqs⟩ := List.forall_mem_append.1 hflawless
  refine ⟨⟨hps, rfl⟩, ⟨hqs, rfl⟩, fun p hlast hp => ?_⟩
  obtain ⟨ps, hps⟩ := List.getLast?_eq_some_iff.1 hlast
  rw [hps, List.append_assoc, List.singleton_append, Reading.cutsOff_append] at hcut
  have hcutLast := hcut.2.1
  rw [List.append_nil, hafter] at hcutLast
  exact (comment_of_cutOff hcutLast hp).2.2

/-- Blanks astride a place make no tokens on either side. -/
theorem makes_astride {ps qs : List (Piece Token)} {p : Piece Token} {start stop : List Char}
    (h : Astride cut before after ps start p stop qs)
    (hflawless : Reading.Flawless (pieces cut (before ++ after))) (hkind : p.kind = .gap)
    (hp : ¬ IsComment p) :
    Makes before (ps.filterMap Piece.token?) ∧ Makes after (qs.filterMap Piece.token?) ∧
      ∀ q, (pieces cut before).getLast? = some q → ¬ IsComment q := by
  have hblanks : ∀ c ∈ p.text, isGap c = true := by
    rcases h.cutOff.isGap cut_skips hkind with hblanks | ⟨body, htext, -⟩
    · exact hblanks
    · exact absurd (by rw [IsComment, htext]; rfl) hp
  rw [h.text_eq] at hblanks
  obtain ⟨hstart, hstop⟩ := List.forall_mem_append.1 hblanks
  have hcut := Reading.cutsOff_pieces cut_faithful (before ++ after)
  rw [h.pieces_whole] at hflawless hcut
  obtain ⟨hps, hqs⟩ := List.forall_mem_append.1 hflawless
  refine ⟨?_, ?_, ?_⟩
  · have hnone : Makes (start ++ []) [] := (makes_blanks hstart).2 makes_nil
    rw [List.append_nil] at hnone
    refine ⟨?_, ?_⟩
    · rw [h.pieces_before]
      exact List.forall_mem_append.2 ⟨hps, hnone.flawless⟩
    · rw [h.pieces_before, List.filterMap_append, hnone.tokens, List.append_nil]
  · have hpieces : pieces cut (textOf qs) = qs :=
      Reading.pieces_textOf cut_faithful (Reading.cutsOff_append.1 hcut).2.2
    rw [h.after_eq]
    refine (makes_blanks hstop).2 ⟨?_, ?_⟩
    · rw [hpieces]
      exact (List.forall_mem_cons.1 hqs).2
    · rw [hpieces]
  · intro q hlast hq
    have htext : textOf (pieces cut start) = start := Reading.textOf_pieces cut_faithful start
    have hne : pieces cut start ≠ [] := by
      intro hnil
      rw [hnil] at htext
      exact h.start_ne_nil htext.symm
    rw [h.pieces_before, List.getLast?_append_of_ne_nil ps hne] at hlast
    have hmem : '#' ∈ start := by
      rw [← htext]
      exact List.mem_flatMap.2 ⟨q, List.mem_of_getLast? hlast, List.mem_of_head? hq⟩
    exact absurd (hstart _ hmem) (by decide)

/-- A place between the tokens of a text, and not in a comment, divides the text into two with these
tokens. Where it stands behind a comment, the line does not go on. -/
theorem makes_parts (hraw : Reading.lexemes cut (before ++ after) = .ok (xs ++ ys))
    (hxs : ∀ x ∈ xs, x.span.stop ≤ width before) (hys : ∀ y ∈ ys, width before ≤ y.span.start)
    (hcomment : ∀ ps start p stop qs, Astride cut before after ps start p stop qs → ¬ IsComment p) :
    Makes before (xs.map Lexeme.token) ∧ Makes after (ys.map Lexeme.token) ∧
      ∀ p, (pieces cut before).getLast? = some p → IsComment p → BreaksLine after := by
  have hflawless := Reading.flawless_of_lexemes hraw
  have hlexemes := Reading.eq_lexemesFrom_of_lexemes hraw
  have hne : ∀ p ∈ pieces cut (before ++ after), p.text ≠ [] :=
    Reading.text_ne_nil_of_mem_pieces cut_faithful
  rcases Reading.pieces_append_cases cut_faithful cut_cancels hflawless with hboth |
    ⟨ps, start, p, stop, qs, h⟩
  · obtain ⟨hbefore, hafter, hline⟩ := makes_divided hboth hflawless
    have htext : textOf (pieces cut before) = before := Reading.textOf_pieces cut_faithful before
    rw [hboth] at hlexemes hne
    rw [Reading.lexemesFrom_append, htext, Nat.zero_add] at hlexemes
    obtain ⟨hnePs, hneQs⟩ := List.forall_mem_append.1 hne
    obtain ⟨rfl, rfl⟩ := Reading.eq_lexemesFrom_of_divided hlexemes hnePs hneQs (by rw [htext])
      (Nat.le_refl _) hxs hys
    rw [Reading.map_token_lexemesFrom, Reading.map_token_lexemesFrom]
    exact ⟨hbefore, hafter, hline⟩
  · have hkind := h.kind_eq_gap hraw hxs hys
    obtain ⟨hbefore, hafter, hlast⟩ := makes_astride h hflawless hkind (hcomment _ _ _ _ _ h)
    have hwidth : width before = width (textOf ps) + width start := by
      rw [h.before_eq, Text.width_append]
    rw [h.pieces_whole] at hlexemes hne
    obtain ⟨hnePs, hneQs⟩ := List.forall_mem_append.1 hne
    rw [Reading.lexemesFrom_append, Nat.zero_add, lexemesFrom, hkind] at hlexemes
    obtain ⟨rfl, rfl⟩ := Reading.eq_lexemesFrom_of_divided hlexemes hnePs
      (List.forall_mem_cons.1 hneQs).2 (by omega)
      (by rw [h.text_eq, Text.width_append]; omega) hxs hys
    rw [Reading.map_token_lexemesFrom, Reading.map_token_lexemesFrom]
    exact ⟨hbefore, hafter, fun q hq hhash => absurd hhash (hlast q hq)⟩

end Token

/-! ## Reading -/

open Reading (Reader)
open Token (Idle IsComment dropSeparators)

variable {text other before after : List Char} {xs ys zs : List (Lexeme Token)} {b : Block}

/-- A code block is read from the tokens that are left. -/
theorem read_eq_ok_iff (hraw : Reading.lexemes Token.cut text = .ok xs) :
    read text = .ok b ↔ result (Grammar.block ((dropSeparators 0 true xs).length + 2))
      (dropSeparators 0 true xs) = some (b, []) := by
  have hread : read text = Reader.readAll (Grammar.block ((dropSeparators 0 true xs).length + 2))
      Token.describe text (dropSeparators 0 true xs) := by
    rw [read, Token.lexemes, hraw]
    rfl
  rw [hread, Reader.readAll_eq_ok_iff]

/-- The same is read from the same tokens, and if a separator stands behind the last one. -/
theorem read_iff_of_tokens (hraw : Reading.lexemes Token.cut text = .ok xs)
    (hother : Reading.lexemes Token.cut other = .ok zs)
    (h : (dropSeparators 0 true zs).map Lexeme.token = (dropSeparators 0 true xs).map Lexeme.token ∨
      Grammar.EndsStatement (dropSeparators 0 true xs) ∧
        (dropSeparators 0 true zs).map Lexeme.token =
          (dropSeparators 0 true xs).map Lexeme.token ++ [.separator]) :
    read other = .ok b ↔ read text = .ok b := by
  rw [read_eq_ok_iff hraw, read_eq_ok_iff hother]
  rcases h with hsame | ⟨hends, hlonger⟩
  · have hlength := congrArg List.length hsame
    rw [List.length_map, List.length_map] at hlength
    exact (Grammar.result_block_iff hsame (by omega) (by omega)).symm
  · have hlength := congrArg List.length hlonger
    rw [List.length_append, List.length_map, List.length_map] at hlength
    exact (Grammar.result_block_append_iff hends hlonger (by omega) (by omega)).symm

/-- A newline or a semicolon makes no difference between tokens of a text where it means nothing: at
the beginning or at the end, beside another one, or where more brackets have been opened than
closed. The place is not inside a comment. -/
theorem read_insert_separator {c : Char} (hc : c = '\n' ∨ c = ';')
    (hraw : Reading.lexemes Token.cut (before ++ after) = .ok (xs ++ ys))
    (hxs : ∀ x ∈ xs, x.span.stop ≤ width before) (hys : ∀ y ∈ ys, width before ≤ y.span.start)
    (hcomment : ∀ ps start p stop qs,
      Astride Token.cut before after ps start p stop qs → ¬ IsComment p)
    (hidle : Idle (xs.map Lexeme.token) (ys.map Lexeme.token)) (b : Block) :
    read (before ++ c :: after) = .ok b ↔ read (before ++ after) = .ok b := by
  obtain ⟨hbefore, hafter, hline⟩ := Token.makes_parts hraw hxs hys hcomment
  by_cases hgoes : c = ';' ∧ ∃ p, (pieces Token.cut before).getLast? = some p ∧ IsComment p
  · -- The semicolon belongs to the comment before it.
    obtain ⟨rfl, p, hlast, hp⟩ := hgoes
    have hbreaks := hline p hlast hp
    have hsemicolon : '\n' ∉ [';'] := by decide
    have hmakes := (hbefore.append_comment hlast hp hsemicolon).append hafter hbreaks.breaks
      fun _ _ _ => hbreaks
    rw [List.append_assoc, List.singleton_append, ← List.map_append] at hmakes
    obtain ⟨zs, hzs, htokens⟩ := hmakes.exists_lexemes
    exact read_iff_of_tokens hraw hzs (.inl (Token.map_token_dropSeparators htokens 0 true))
  · have hseparator := (Token.makes_separator hc).2 ⟨_, hafter, rfl⟩
    have hbreaks : Token.Breaks (c :: after) := fun d _ hcons => by
      rw [← (List.cons.inj hcons).1]
      exact hc.imp_right .inl
    have hmakes := hbefore.append hseparator hbreaks fun p hlast hp d _ hcons => by
      rw [← (List.cons.inj hcons).1]
      exact hc.resolve_right fun h => hgoes ⟨h, p, hlast, hp⟩
    obtain ⟨zs, hzs, htokens⟩ := hmakes.exists_lexemes
    exact read_iff_of_tokens hraw hzs (Token.dropSeparators_insert htokens hidle)

/-- An argument on a line of its own. -/
theorem read_insert_separator_call :
    ∃ b, read "f(1)".toList = .ok b ∧ read "f(\n1)".toList = .ok b := by
  have hraw : Reading.lexemes Token.cut ("f(".toList ++ "1)".toList) =
      .ok ([⟨.name "f", 0, 1⟩, ⟨.symbol .parenOpen, 1, 2⟩] ++
        [⟨.int 1, 2, 3⟩, ⟨.symbol .parenClose, 3, 4⟩]) := by
    rfl
  have hplain : ((pieces Token.cut ("f(".toList ++ "1)".toList)).all
      fun p => p.text.head? != some '#') = true := by
    decide +kernel
  have haccepted : (read "f(1)".toList).toOption.isSome = true := by decide +kernel
  cases hread : read "f(1)".toList with
  | error faults =>
      rw [hread] at haccepted
      cases haccepted
  | ok b =>
      refine ⟨b, rfl, (read_insert_separator (.inl rfl) hraw ?_ ?_ ?_ ?_ b).2 hread⟩
      · exact List.forall_mem_cons.2 ⟨by decide, List.forall_mem_singleton.2 (by decide)⟩
      · exact List.forall_mem_cons.2 ⟨by decide, List.forall_mem_singleton.2 (by decide)⟩
      · intro ps start p stop qs h hp
        exact bne_iff_ne.1 (List.all_eq_true.1 hplain p h.mem) hp
      · right; right; right; right
        decide

end InfraGraph.Block
