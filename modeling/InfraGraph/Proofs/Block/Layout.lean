import InfraGraph.Proofs.Block.Tiling
import InfraGraph.Proofs.Reading.Dividing

/-!
# The layout of code blocks

A newline or a semicolon ends every piece that stands before it but a comment or a string, and it is
a token of its own. So the tokens of a text, its separators included, are found line by line, and
neither blanks at the beginning of a line matter nor what a comment says.

## Main results

* `Token.cut_halts` — a piece is cut off before a separator or a comment.
* `Makes` — the tokens of a text before separators are dropped.
* `makes_separator`, `makes_blank` — a separator, or a blank, at the beginning of a text.
* `Makes.append` — what stands before a separator and what begins with it.
* `Makes.append_comment` — a comment at the end of a text may go on.
* `exists_lexemes_of_makes` — the tokens of a text when separators have been dropped.
-/

namespace InfraGraph.Block.Token

open Reading (Cut CutOff CutsOff Flawless Lexeme Piece cutWhile continuesWord pieces textOf)

/-- What follows is a separator, a comment, or nothing. -/
def Breaks (rest : List Char) : Prop :=
  ∀ c more, rest = c :: more → c = '\n' ∨ c = ';' ∨ c = '#'

/-- What follows is a newline, or nothing. -/
def BreaksLine (rest : List Char) : Prop := ∀ c more, rest = c :: more → c = '\n'

variable {c : Char} {cs rest : List Char} {p : Piece Token}

/-- The end of a line is a break. -/
theorem BreaksLine.breaks (h : BreaksLine rest) : Breaks rest := fun c more hcons =>
  .inl (h c more hcons)

private theorem Breaks.stops (h : Breaks rest) {q : Char → Bool} (hnewline : q '\n' = false)
    (hsemicolon : q ';' = false) (hhash : q '#' = false) :
    ∀ c more, rest = c :: more → q c = false := by
  intro c more hcons
  rcases h c more hcons with rfl | rfl | rfl
  · exact hnewline
  · exact hsemicolon
  · exact hhash

/-- A piece of a text is a comment. -/
def IsComment (p : Piece Token) : Prop := p.text.head? = some '#'

private theorem cutSymbol_halts (hrest : Breaks rest) (c : Char) (cs : List Char) :
    cutSymbol c (cs ++ rest) = ((cutSymbol c cs).1, (cutSymbol c cs).2 ++ rest) := by
  have hchar (cs : List Char) :
      cutChar c (cs ++ rest) = ((cutChar c cs).1, (cutChar c cs).2 ++ rest) := by
    unfold cutChar Reading.cutStray
    split <;> rfl
  cases cs with
  | nil =>
      cases rest with
      | nil => exact hchar []
      | cons d more =>
          have hpair : Symbol.ofPair? c d = none := by
            rcases hrest d more rfl with rfl | rfl | rfl <;>
              (unfold Symbol.ofPair?; split <;> simp_all)
          have hsymbol : cutSymbol c (d :: more) = cutChar c (d :: more) := by
            rw [cutSymbol, hpair]
          exact hsymbol.trans (hchar [])
  | cons d ds =>
      rw [List.cons_append, cutSymbol, cutSymbol]
      split
      · rfl
      · exact hchar (d :: ds)

/-- A piece is cut off before a separator or a comment as it is before nothing, unless it is a
comment and the line goes on. -/
theorem cut_halts (hp : ∀ cause shown, (cut c cs).1.kind ≠ .fault cause shown) (hrest : Breaks rest)
    (hcomment : c = '#' → (cut c cs).2 ≠ [] ∨ BreaksLine rest) :
    cut c (cs ++ rest) = ((cut c cs).1, (cut c cs).2 ++ rest) := by
  unfold cut at hp hcomment ⊢
  split at hp
  · rename_i hgap
    rw [if_pos hgap, if_pos hgap]
    exact Reading.cutWhile_halts (hrest.stops rfl rfl rfl) _ c cs
  rename_i hgap
  rw [if_neg hgap, if_neg hgap]
  rw [if_neg hgap] at hcomment
  split at hp
  · rename_i hhash
    rw [if_pos hhash, if_pos hhash]
    rw [if_pos hhash] at hcomment
    rcases hcomment hhash with hne | hline
    · exact Reading.cutWhile_append_of_ne_nil hne rest
    · refine Reading.cutWhile_halts (fun d more hcons => ?_) _ c cs
      rw [hline d more hcons]
      rfl
  rename_i hhash
  rw [if_neg hhash, if_neg hhash]
  split at hp
  · rename_i hbreak
    rw [if_pos hbreak, if_pos hbreak]
  rename_i hbreak
  rw [if_neg hbreak, if_neg hbreak]
  split at hp
  · rename_i hword
    rw [if_pos hword, if_pos hword]
    exact Reading.cutWhile_halts (hrest.stops rfl rfl rfl) _ c cs
  rename_i hword
  rw [if_neg hword, if_neg hword]
  split at hp
  · rename_i hquote
    rw [if_pos hquote, if_pos hquote]
    have hback : c ≠ '\\' := by rcases hquote with rfl | rfl <;> decide
    exact Reading.cutQuoted_halts hback hp rest
  rename_i hquote
  rw [if_neg hquote, if_neg hquote]
  split at hp
  · rename_i hdigit
    rw [if_pos hdigit, if_pos hdigit]
    exact Reading.cutNumeral_halts (hrest.stops rfl rfl rfl) numberRule [] (c :: cs)
  · rename_i hdigit
    rw [if_neg hdigit, if_neg hdigit]
    exact cutSymbol_halts hrest c cs

/-- Pieces that are cut off where nothing follows are cut off before a separator or a comment,
unless the last of them is a comment and the line goes on. -/
theorem cutsOff_halts {ps : List (Piece Token)} (hcut : CutsOff cut ps []) (hflawless : Flawless ps)
    (hrest : Breaks rest)
    (hcomment : ∀ p, ps.getLast? = some p → IsComment p → BreaksLine rest) :
    CutsOff cut ps rest := by
  induction ps with
  | nil => trivial
  | cons p ps ih =>
      obtain ⟨⟨c, cs, htext, hfirst⟩, hmore⟩ := hcut
      obtain ⟨hp, hflawless⟩ := List.forall_mem_cons.1 hflawless
      rw [List.append_nil] at hfirst
      have hpiece : (cut c (cs ++ textOf ps)).1 = p := by rw [hfirst]
      refine ⟨⟨c, cs, htext, ?_⟩, ih hmore hflawless fun q hq => hcomment q ?_⟩
      · have hhalts := cut_halts (by rw [hpiece]; exact hp) hrest fun hhash => ?_
        · rw [hfirst, List.append_assoc] at hhalts
          exact hhalts
        · rw [hfirst]
          cases ps with
          | nil =>
              refine .inr (hcomment p rfl ?_)
              rw [IsComment, htext, hhash]
              rfl
          | cons q ps =>
              obtain ⟨⟨d, ds, hq, -⟩, -⟩ := hmore
              left
              simp [hq]
      · rw [List.getLast?_cons_of_ne_nil (by rintro rfl; cases hq)]
        exact hq

/-! ## Comments -/

/-- A comment without a newline is one piece. -/
theorem pieces_comment {body : List Char} (hbody : '\n' ∉ body) :
    pieces cut ('#' :: body) = [⟨'#' :: body, .gap⟩] := by
  have hin : ∀ c ∈ body, (c != '\n') = true := fun c hc =>
    bne_iff_ne.2 (by rintro rfl; exact hbody hc)
  have hcut : cut '#' body = (⟨'#' :: body, .gap⟩, []) := by
    have hstop : ∀ c more, ([] : List Char) = c :: more → (c != '\n') = false := fun _ _ h => by
      cases h
    have hend := Reading.cutWhile_append (τ := Token) (fun _ => .gap) '#' hin hstop
    rw [List.append_nil] at hend
    exact hend
  rw [Reading.pieces_cons cut_faithful, hcut]
  rfl

/-- A comment goes to the end of its line. -/
theorem comment_of_cutOff (hcut : CutOff cut p rest) (hp : IsComment p) :
    p.kind = .gap ∧ (∃ body, p.text = '#' :: body ∧ '\n' ∉ body) ∧ BreaksLine rest := by
  have hkind : p.kind = .gap := by
    obtain ⟨c, cs, htext, hfirst⟩ := hcut
    rw [IsComment, htext] at hp
    obtain rfl := Option.some.inj hp
    have hcomment : (cut '#' (cs ++ rest)).1.kind = .gap := rfl
    rwa [hfirst] at hcomment
  rcases hcut.isGap cut_skips hkind with hblanks | ⟨body, htext, hbody, hrest⟩
  · exact absurd (hblanks _ (List.mem_of_head? hp)) (by decide)
  · exact ⟨hkind, ⟨body, htext, hbody⟩, hrest⟩

/-- What stands before a comment is cut off there, whatever the comment says. -/
theorem cutsOff_comment {ps : List (Piece Token)} (hflawless : Flawless ps) {body : List Char}
    (hcut : CutsOff cut ps ('#' :: body)) (other : List Char) : CutsOff cut ps ('#' :: other) := by
  refine cutsOff_halts (Reading.CutsOff.cancel cut_cancels hflawless hcut) hflawless
    (fun c _ hcons => .inr (.inr (List.cons.inj hcons).1.symm)) fun q hq hhash => ?_
  -- If there were another comment before it, that one would not have ended.
  obtain ⟨qs, rfl⟩ := List.getLast?_eq_some_iff.1 hq
  have hlast := (Reading.cutsOff_append.1 hcut).2.1
  rw [Reading.textOf_nil, List.nil_append] at hlast
  exact absurd ((comment_of_cutOff hlast hhash).2.2 '#' body rfl) (by decide)

/-! ## Tokens with all separators -/

/-- A text makes these tokens, its separators being kept. -/
structure Makes (text : List Char) (ts : List Token) : Prop where
  flawless : Flawless (pieces cut text)
  tokens : (pieces cut text).filterMap Piece.token? = ts

section

variable {text before after : List Char} {ts us : List Token}

theorem makes_nil : Makes [] [] := ⟨fun _ h => absurd h List.not_mem_nil, rfl⟩

private theorem makes_of_lexemes {xs : List (Lexeme Token)}
    (hxs : Reading.lexemes cut text = .ok xs) :
    Makes text (xs.map Lexeme.token) :=
  ⟨Reading.flawless_of_lexemes hxs, by
    rw [Reading.eq_lexemesFrom_of_lexemes hxs, Reading.map_token_lexemesFrom]⟩

/-- A text that makes tokens is cut into lexemes of these tokens. -/
theorem Makes.exists_lexemes (h : Makes text ts) :
    ∃ xs, Reading.lexemes cut text = .ok xs ∧ xs.map Lexeme.token = ts := by
  have hlexemes := Reading.lexemes_of_cutsOff cut_faithful
    (Reading.cutsOff_pieces cut_faithful text) h.flawless
  rw [Reading.textOf_pieces cut_faithful] at hlexemes
  exact ⟨_, hlexemes, by rw [Reading.map_token_lexemesFrom, h.tokens]⟩

/-- The tokens of a text that is divided between two pieces. -/
theorem makes_append_iff
    (hpieces : pieces cut (before ++ after) = pieces cut before ++ pieces cut after) :
    Makes (before ++ after) ts ↔ ∃ us vs, Makes before us ∧ Makes after vs ∧ ts = us ++ vs := by
  constructor
  · rintro ⟨hflawless, rfl⟩
    rw [hpieces] at hflawless ⊢
    obtain ⟨hbefore, hafter⟩ := List.forall_mem_append.1 hflawless
    exact ⟨_, _, ⟨hbefore, rfl⟩, ⟨hafter, rfl⟩, List.filterMap_append⟩
  · rintro ⟨us, vs, ⟨hbefore, rfl⟩, ⟨hafter, rfl⟩, rfl⟩
    refine ⟨?_, ?_⟩
    · rw [hpieces]
      exact List.forall_mem_append.2 ⟨hbefore, hafter⟩
    · rw [hpieces, List.filterMap_append]

/-- What stands before a separator makes its tokens before it, unless it ends with a comment and the
line goes on. -/
theorem Makes.append (hbefore : Makes before ts) (hafter : Makes after us) (hbreaks : Breaks after)
    (hcomment : ∀ p, (pieces cut before).getLast? = some p → IsComment p → BreaksLine after) :
    Makes (before ++ after) (ts ++ us) := by
  have hcut := cutsOff_halts (Reading.cutsOff_pieces cut_faithful before) hbefore.flawless hbreaks
    hcomment
  have hpieces := Reading.pieces_of_cutsOff cut_faithful hcut
  rw [Reading.textOf_pieces cut_faithful] at hpieces
  exact (makes_append_iff hpieces).2 ⟨ts, us, hbefore, hafter, rfl⟩

/-- A comment at the end of a text may go on. -/
theorem Makes.append_comment (h : Makes before ts) (hlast : (pieces cut before).getLast? = some p)
    (hp : IsComment p) {more : List Char} (hmore : '\n' ∉ more) : Makes (before ++ more) ts := by
  obtain ⟨ps, hps⟩ := List.getLast?_eq_some_iff.1 hlast
  obtain ⟨hflawless, rfl⟩ := h
  have hcut := Reading.cutsOff_pieces cut_faithful before
  have htext : textOf (pieces cut before) = before := Reading.textOf_pieces cut_faithful before
  rw [hps] at hflawless hcut htext ⊢
  obtain ⟨hbefore, -⟩ := List.forall_mem_append.1 hflawless
  obtain ⟨hcutBefore, hcutComment⟩ := Reading.cutsOff_append.1 hcut
  obtain ⟨hkind, ⟨body, hbody, hline⟩, -⟩ := comment_of_cutOff hcutComment.1 hp
  have hcomment : textOf [p] = '#' :: body := by
    rw [Reading.textOf_cons, hbody, Reading.textOf_nil, List.append_nil]
  rw [hcomment] at hcutBefore
  have hlonger : '\n' ∉ body ++ more := fun hmem => (List.mem_append.1 hmem).elim hline hmore
  have hpieces := Reading.pieces_of_cutsOff cut_faithful
    (cutsOff_comment hbefore hcutBefore (body ++ more))
  rw [pieces_comment hlonger, ← List.cons_append, ← List.append_assoc, ← hcomment,
    ← Reading.textOf_append, htext] at hpieces
  refine ⟨?_, ?_⟩
  · rw [hpieces]
    exact List.forall_mem_append.2 ⟨hbefore, List.forall_mem_singleton.2 fun _ _ h => by cases h⟩
  · rw [hpieces, List.filterMap_append, List.filterMap_append]
    simp [Piece.token?, hkind]

/-- The tokens of a text whose first piece is known. -/
theorem makes_cons_iff {p : Piece Token} (hpieces : pieces cut before = p :: pieces cut after)
    (hp : ∀ cause shown, p.kind ≠ .fault cause shown) :
    Makes before ts ↔ ∃ us, Makes after us ∧ ts = p.token?.toList ++ us := by
  have htokens (ps : List (Piece Token)) :
      (p :: ps).filterMap Piece.token? = p.token?.toList ++ ps.filterMap Piece.token? := by
    rw [List.filterMap_cons]
    cases p.token? <;> rfl
  constructor
  · rintro ⟨hflawless, rfl⟩
    rw [hpieces] at hflawless ⊢
    exact ⟨_, ⟨(List.forall_mem_cons.1 hflawless).2, rfl⟩, htokens _⟩
  · rintro ⟨us, ⟨hflawless, rfl⟩, rfl⟩
    refine ⟨?_, ?_⟩
    · rw [hpieces]
      exact List.forall_mem_cons.2 ⟨hp, hflawless⟩
    · rw [hpieces, htokens]

/-- A line break or semicolon makes a separator. -/
theorem makes_separator {c : Char} (hc : c = '\n' ∨ c = ';') :
    Makes (c :: text) ts ↔ ∃ us, Makes text us ∧ ts = separator :: us := by
  have hcut : cut c text = (⟨[c], .token separator⟩, text) := by
    rcases hc with rfl | rfl <;> rfl
  have hpieces : pieces cut (c :: text) = ⟨[c], .token separator⟩ :: pieces cut text := by
    rw [Reading.pieces_cons cut_faithful, hcut]
  exact makes_cons_iff hpieces fun _ _ h => by cases h

/-- A blank at the beginning of a text makes no tokens. -/
theorem makes_blank {c : Char} (hc : isGap c = true) : Makes (c :: text) ts ↔ Makes text ts := by
  have hgap (d : Char) (hd : isGap d = true) (cs : List Char) :
      Makes (d :: cs) ts ↔ Makes (cs.dropWhile isGap) ts := by
    have hpieces : pieces cut (d :: cs) =
        ⟨d :: cs.takeWhile isGap, .gap⟩ :: pieces cut (cs.dropWhile isGap) := by
      rw [Reading.pieces_cons cut_faithful, cut, if_pos hd]
      rfl
    rw [makes_cons_iff hpieces fun _ _ h => by cases h]
    constructor
    · rintro ⟨us, hus, rfl⟩
      exact hus
    · exact fun h => ⟨ts, h, rfl⟩
  rw [hgap c hc]
  -- The text may go on with blanks.
  cases text with
  | nil => rfl
  | cons d ds =>
      by_cases hd : isGap d = true
      · rw [hgap d hd, List.dropWhile_cons_of_pos hd]
      · rw [List.dropWhile_cons_of_neg hd]

/-- Blanks make no tokens. -/
theorem makes_blanks {blanks : List Char} (hblanks : ∀ c ∈ blanks, isGap c = true) :
    Makes (blanks ++ text) ts ↔ Makes text ts := by
  induction blanks with
  | nil => rfl
  | cons c cs ih =>
      obtain ⟨hc, hcs⟩ := List.forall_mem_cons.1 hblanks
      rw [List.cons_append, makes_blank hc, ih hcs]

end

/-! ## Separators that are dropped -/

/-- Which separators are dropped depends on the tokens alone. -/
theorem map_token_dropSeparators {xs ys : List (Lexeme Token)}
    (h : xs.map Lexeme.token = ys.map Lexeme.token) (depth : Nat) (fresh : Bool) :
    (dropSeparators depth fresh xs).map Lexeme.token =
      (dropSeparators depth fresh ys).map Lexeme.token := by
  induction xs generalizing ys depth fresh with
  | nil =>
      rw [List.map_nil] at h
      rw [List.map_eq_nil_iff.1 h.symm]
  | cons x xs ih =>
      obtain ⟨y, ys, rfl, hy, hmore⟩ := List.map_eq_cons_iff.1 h.symm
      by_cases hx : x.token = .separator
      · rw [dropSeparators_separator hx, dropSeparators_separator (hy.trans hx)]
        split
        · exact ih hmore.symm depth fresh
        · rw [List.map_cons, List.map_cons, hy, ih hmore.symm]
      · rw [dropSeparators_cons hx, dropSeparators_cons (by rw [hy]; exact hx), List.map_cons,
          List.map_cons, hy, ih hmore.symm]

/-- Texts that make the same tokens have the same ones when separators have been dropped. -/
theorem exists_lexemes_of_makes {text other : List Char} {xs : List (Lexeme Token)}
    (hxs : lexemes text = .ok xs) (hmakes : ∀ ts, Makes text ts → Makes other ts) :
    ∃ ys, lexemes other = .ok ys ∧ ys.map Lexeme.token = xs.map Lexeme.token := by
  obtain ⟨raw, hraw, rfl⟩ := exists_dropped_of_lexemes hxs
  obtain ⟨ys, hys, htokens⟩ := (hmakes _ (makes_of_lexemes hraw)).exists_lexemes
  refine ⟨dropSeparators 0 true ys, ?_, map_token_dropSeparators htokens 0 true⟩
  rw [lexemes, hys]
  rfl

end InfraGraph.Block.Token
