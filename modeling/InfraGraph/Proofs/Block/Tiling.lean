import InfraGraph.Proofs.Block.Spelling
import InfraGraph.Proofs.Definition.Tiling

/-!
# What the tokens of a code block leave of it

A code block is made of tokens, blanks and comments like a source text, and besides of separators
that are dropped. Of the separators, those are left that stand behind another token and outside of
brackets.

## Main results

* `Token.cut_cancels` — every piece is cut off as well with less behind it.
* `Token.described_cut` — what the pieces of a code block are.
* `Token.divides_of_dropSeparators` — where separators are left.
* `lexemes_tile` — the tokens of a text of either language tile it, and each of them is made by the
  part that it covers.
-/

namespace InfraGraph.Block.Token

open Reading (Cut CutsOff Flawless Lexeme Piece Tiles Covers continuesWord cutNumeral lexemesFrom
  startsWord textOf)
open Text (slice width)

/-! ## Less behind -/

private theorem cutChar_cancel {c : Char} {cs rest behind : List Char} {p : Piece Token}
    (h : cutChar c (cs ++ behind) = (p, rest ++ behind)) : cutChar c cs = (p, rest) := by
  unfold cutChar Reading.cutStray at h ⊢
  split at h
  · obtain ⟨rfl, hrest⟩ := Prod.mk.inj h
    rw [List.append_cancel_right hrest]
  · obtain ⟨rfl, hrest⟩ := Prod.mk.inj h
    rw [List.append_cancel_right hrest]

private theorem cutSymbol_cancel {c : Char} {cs rest behind : List Char} {p : Piece Token}
    (h : cutSymbol c (cs ++ behind) = (p, rest ++ behind)) : cutSymbol c cs = (p, rest) := by
  cases cs with
  | nil =>
      cases behind with
      | nil =>
          rw [List.append_nil, List.append_nil] at h
          exact h
      | cons d ds =>
          rw [List.nil_append, cutSymbol] at h
          split at h
          · -- The second character would be taken from what is behind.
            have hlength := congrArg List.length (Prod.mk.inj h).2
            rw [List.length_append, List.length_cons] at hlength
            omega
          · exact cutChar_cancel h
  | cons d ds =>
      rw [List.cons_append, cutSymbol] at h
      rw [cutSymbol]
      split at h
      · obtain ⟨rfl, hrest⟩ := Prod.mk.inj h
        rw [List.append_cancel_right hrest]
      · exact cutChar_cancel h

/-- A piece of a code block does not depend on how much stands behind it. -/
theorem cut_cancels : Cut.Cancels cut := by
  intro c cs rest behind p hp h
  unfold cut at h ⊢
  split at h
  · rename_i hgap
    rw [if_pos hgap]
    exact Reading.cutWhile_cancel h
  rename_i hgap
  rw [if_neg hgap]
  split at h
  · rename_i hhash
    rw [if_pos hhash]
    exact Reading.cutWhile_cancel h
  rename_i hhash
  rw [if_neg hhash]
  split at h
  · rename_i hbreak
    rw [if_pos hbreak]
    obtain ⟨rfl, hrest⟩ := Prod.mk.inj h
    rw [List.append_cancel_right hrest]
  rename_i hbreak
  rw [if_neg hbreak]
  split at h
  · rename_i hword
    rw [if_pos hword]
    exact Reading.cutWhile_cancel h
  rename_i hword
  rw [if_neg hword]
  split at h
  · rename_i hquote
    rw [if_pos hquote]
    have hback : c ≠ '\\' := by rcases hquote with rfl | rfl <;> decide
    exact Reading.cutQuoted_cancel hback hp h
  rename_i hquote
  rw [if_neg hquote]
  split at h
  · rename_i hdigit
    rw [if_pos hdigit]
    exact Reading.cutNumeral_cancel h
  · rename_i hdigit
    rw [if_neg hdigit]
    exact cutSymbol_cancel h

/-! ## What pieces are -/

/-- How tokens are written: a separator is a newline or a semicolon, a string ends with its quote,
and no other token contains a newline or a backtick. -/
def Written : Token → List Char → Prop
  | separator, text => text = ['\n'] ∨ text = [';']
  | string _, text => ∃ quote body, (quote = '"' ∨ quote = '\'') ∧ text = body ++ [quote]
  | _, text => ∀ c ∈ text, c ≠ '\n' ∧ c ≠ '\x60'

/-- What a piece before `rest` is, by its kind. -/
def Described (p : Piece Token) (rest : List Char) : Prop :=
  match p.kind with
  | .gap => Reading.IsGap isGap p.text rest
  | .token t => t.Written p.text
  | .fault _ _ => True

/-- What belongs to a class without newline and backtick contains neither. -/
theorem forall_ne_of_class {p : Char → Bool} {text : List Char} (htext : ∀ c ∈ text, p c = true)
    (hnewline : p '\n' = false) (hbacktick : p '\x60' = false) :
    ∀ c ∈ text, c ≠ '\n' ∧ c ≠ '\x60' := fun c hc =>
  ⟨Reading.ne_of_class (htext c hc) hnewline, Reading.ne_of_class (htext c hc) hbacktick⟩

private theorem written_ofWord {text : List Char} (htext : ∀ c ∈ text, continuesWord c = true) :
    (ofWord text).Written text := by
  have hplain := forall_ne_of_class htext rfl rfl
  unfold ofWord
  split <;> exact hplain

private theorem described_cutQuoted {quote : Char} (hquote : quote = '"' ∨ quote = '\'')
    (cs : List Char) :
    Described (Reading.cutQuoted string quote cs).1 (Reading.cutQuoted string quote cs).2 := by
  unfold Reading.cutQuoted
  dsimp only
  split
  · rename_i hclosed
    refine ⟨quote, quote :: (Reading.quoted quote cs).body, hquote, ?_⟩
    rw [Reading.Quoted.taken, if_pos hclosed]
    rfl
  · trivial

private theorem described_cutNumeral (cs : List Char) :
    Described (cutNumeral numberRule [] cs).1 (cutNumeral numberRule [] cs).2 := by
  have hplain : ∀ c ∈ (Reading.numeral numberRule.bareExponent cs).text, c ≠ '\n' ∧ c ≠ '\x60' :=
    forall_ne_of_class (fun c hc => Reading.isNumeralChar_of_mem_numeral hc) rfl rfl
  unfold cutNumeral
  dsimp only
  split
  · rename_i t ht
    unfold Reading.NumberRule.token? at ht
    split at ht
    · obtain ⟨n, -, rfl⟩ := Option.map_eq_some_iff.1 ht
      exact hplain
    · obtain ⟨x, -, rfl⟩ := Option.map_eq_some_iff.1 ht
      exact hplain
  · trivial

private theorem ne_of_ofChar? {c : Char} {s : Symbol} (hs : Symbol.ofChar? c = some s) :
    c ≠ '\n' ∧ c ≠ '\x60' := by
  constructor
  · rintro rfl
    cases hs
  · rintro rfl
    cases hs

private theorem ne_of_ofPair? {c d : Char} {s : Symbol} (hs : Symbol.ofPair? c d = some s) :
    (c ≠ '\n' ∧ c ≠ '\x60') ∧ d ≠ '\n' ∧ d ≠ '\x60' := by
  unfold Symbol.ofPair? at hs
  split at hs <;> first | decide | cases hs

private theorem described_cutChar (c : Char) (cs : List Char) :
    Described (cutChar c cs).1 (cutChar c cs).2 := by
  unfold cutChar
  split
  · rename_i s hs
    exact List.forall_mem_singleton.2 (ne_of_ofChar? hs)
  · trivial

private theorem described_cutSymbol (c : Char) (cs : List Char) :
    Described (cutSymbol c cs).1 (cutSymbol c cs).2 := by
  unfold cutSymbol
  split
  · exact described_cutChar c []
  · rename_i d ds
    split
    · rename_i s hs
      obtain ⟨hc, hd⟩ := ne_of_ofPair? hs
      exact List.forall_mem_cons.2 ⟨hc, List.forall_mem_singleton.2 hd⟩
    · exact described_cutChar c _

/-- Every piece of a code block is what its kind says. -/
theorem described_cut (c : Char) (cs : List Char) : Described (cut c cs).1 (cut c cs).2 := by
  unfold cut
  split
  · rename_i hgap
    exact Reading.isGap_cutWhile (τ := Token) (fun _ => .gap) hgap cs
  split
  · rename_i hhash
    subst hhash
    exact Reading.isGap_cutComment (τ := Token) isGap cs
  split
  · rename_i hbreak
    rcases hbreak with rfl | rfl
    · exact .inl rfl
    · exact .inr rfl
  split
  · rename_i hword
    have hcontinues : continuesWord c = true := by simp [continuesWord, hword]
    exact written_ofWord
      (List.forall_mem_cons.2 ⟨hcontinues, fun _ hd => List.mem_takeWhile_imp hd⟩)
  split
  · rename_i hquote
    exact described_cutQuoted hquote cs
  split
  · exact described_cutNumeral (c :: cs)
  · exact described_cutSymbol c cs

/-- Nothing but blanks and comments is skipped. -/
theorem cut_skips : Cut.Skips cut isGap := by
  intro c cs hkind
  have hdescribed := described_cut c cs
  unfold Described at hdescribed
  rw [hkind] at hdescribed
  exact hdescribed

theorem described_of_cutOff {p : Piece Token} {rest : List Char}
    (hcut : Reading.CutOff cut p rest) : Described p rest := by
  obtain ⟨c, cs, -, hcut⟩ := hcut
  have hdescribed := described_cut c (cs ++ rest)
  rw [hcut] at hdescribed
  exact hdescribed

private theorem written_of_cutOff {p : Piece Token} {rest : List Char}
    (hcut : Reading.CutOff cut p rest)
    {t : Token} (hkind : p.kind = .token t) : t.Written p.text := by
  have hdescribed := described_of_cutOff hcut
  unfold Described at hdescribed
  rw [hkind] at hdescribed
  exact hdescribed

/-! ## Separators -/

variable {x : Lexeme Token} {xs rest : List (Lexeme Token)} {depth : Nat} {fresh : Bool}

/-- A token that is no separator is kept. -/
theorem dropSeparators_cons (hx : x.token ≠ .separator) :
    dropSeparators depth fresh (x :: rest) =
      x :: dropSeparators (depthAfter depth x.token) false rest := by
  rw [dropSeparators]
  cases ht : x.token with
  | separator => exact absurd ht hx
  | _ => rfl

/-- A separator is dropped inside brackets, at the start, and behind another one. -/
theorem dropSeparators_separator (hx : x.token = .separator) :
    dropSeparators depth fresh (x :: rest) =
      if 0 < depth ∨ fresh = true then dropSeparators depth fresh rest
      else x :: dropSeparators depth true rest := by
  rw [dropSeparators, hx]

/-- A separator that is left stands behind these tokens: there are some, the last of them is no
separator, and no bracket among them is open. -/
structure Divides (before : List (Lexeme Token)) : Prop where
  notFirst : before ≠ []
  notDouble : ∀ y, before.getLast? = some y → y.token ≠ .separator
  outside : (before.map Lexeme.token).foldl depthAfter 0 = 0

/-- Tokens that are kept, up to a separator. Before them, brackets may be open, and there may be a
separator or nothing. -/
theorem divides_aux {before after : List (Lexeme Token)} (hx : x.token = .separator)
    (h : dropSeparators depth fresh xs = before ++ x :: after) :
    (fresh = true → before ≠ []) ∧ (∀ y, before.getLast? = some y → y.token ≠ .separator) ∧
      (before.map Lexeme.token).foldl depthAfter depth = 0 := by
  induction xs generalizing depth fresh before with
  | nil => simp [dropSeparators] at h
  | cons y ys ih =>
      by_cases hy : y.token = .separator
      · rw [dropSeparators_separator hy] at h
        split at h
        · exact ih h
        · rename_i hkept
          obtain ⟨hdepth, hfresh⟩ := not_or.1 hkept
          cases before with
          | nil =>
              refine ⟨fun h => absurd h hfresh, ?_, Nat.eq_zero_of_not_pos hdepth⟩
              intro z hz
              cases hz
          | cons z before =>
              obtain ⟨rfl, hmore⟩ := List.cons.inj h
              obtain ⟨hne, hlast, houtside⟩ := ih hmore
              refine ⟨fun _ => List.cons_ne_nil _ _, ?_, ?_⟩
              · rw [List.getLast?_cons_of_ne_nil (hne rfl)]
                exact hlast
              · rw [List.map_cons, List.foldl_cons, hy]
                exact houtside
      · rw [dropSeparators_cons hy] at h
        cases before with
        | nil =>
            obtain ⟨rfl, -⟩ := List.cons.inj h
            exact absurd hx hy
        | cons z before =>
            obtain ⟨rfl, hmore⟩ := List.cons.inj h
            obtain ⟨-, hlast, houtside⟩ := ih hmore
            refine ⟨fun _ => List.cons_ne_nil _ _, ?_, houtside⟩
            cases before with
            | nil =>
                intro w hw
                obtain rfl := Option.some.inj hw
                exact hy
            | cons w before =>
                rw [List.getLast?_cons_cons]
                exact hlast

theorem divides_of_dropSeparators {before after : List (Lexeme Token)} (hx : x.token = .separator)
    (h : dropSeparators 0 true xs = before ++ x :: after) : Divides before := by
  obtain ⟨hne, hlast, houtside⟩ := divides_aux hx h
  exact ⟨hne rfl, hlast, houtside⟩

/-! ## The tokens of a code block -/

/-- What stands between tokens: blanks, and the characters of separators that are dropped. -/
def isSkipped (c : Char) : Bool := isGap c || c = '\n' || c = ';'

private theorem isSkipped_of_isGap {c : Char} (hc : isGap c = true) : isSkipped c = true := by
  simp [isSkipped, hc]

/-- Where separators are dropped, their characters are skipped. -/
theorem covers_dropSeparators {ps : List (Piece Token)} (hflawless : Flawless ps)
    (hcut : CutsOff cut ps []) (offset depth : Nat) (fresh : Bool) :
    Covers isSkipped offset (textOf ps) (dropSeparators depth fresh (lexemesFrom offset ps)) := by
  induction ps generalizing offset depth fresh with
  | nil => exact .nil
  | cons p ps ih =>
      obtain ⟨hp, hmore⟩ := List.forall_mem_cons.1 hflawless
      have hrest := ih hmore hcut.2 (offset + width p.text)
      rw [lexemesFrom, Reading.textOf_cons]
      cases hkind : p.kind with
      | fault cause shown => exact absurd hkind (hp cause shown)
      | gap =>
          have hgap := hcut.1.isGap cut_skips hkind
          rw [List.append_nil] at hgap
          refine .gap ?_ (hrest depth fresh)
          exact hgap.imp_left fun hblank c hc => isSkipped_of_isGap (hblank c hc)
      | token t =>
          have hne : p.text ≠ [] := by
            obtain ⟨⟨c, cs, htext, -⟩, -⟩ := hcut
            simp [htext]
          by_cases ht : t = .separator
          · subst ht
            have hwritten := written_of_cutOff hcut.1 hkind
            have hskipped : ∀ c ∈ p.text, isSkipped c = true := by
              rcases hwritten with htext | htext <;> rw [htext] <;>
                exact List.forall_mem_singleton.2 rfl
            rw [dropSeparators_separator rfl]
            split
            · exact .blanks hskipped (hrest _ _)
            · exact .token hne (hrest _ _)
          · rw [dropSeparators_cons ht]
            exact .token hne (hrest _ _)

/-- The lexemes of a block are those of its text with separators dropped. -/
theorem exists_dropped_of_lexemes {text : List Char} (hxs : lexemes text = .ok xs) :
    ∃ ys, Reading.lexemes cut text = .ok ys ∧ xs = dropSeparators 0 true ys := by
  unfold lexemes at hxs
  cases hcut : Reading.lexemes cut text with
  | error faults =>
      rw [hcut] at hxs
      cases hxs
  | ok ys =>
      rw [hcut] at hxs
      exact ⟨ys, rfl, (Except.ok.inj hxs).symm⟩

private theorem tiles_of_lexemes {text : List Char} (hxs : lexemes text = .ok xs) :
    Tiles isSkipped text xs := by
  obtain ⟨ys, hys, rfl⟩ := exists_dropped_of_lexemes hxs
  have htiles := Reading.tiles_of_lexemes cut_faithful cut_skips hys
  have hsub := dropSeparators_sublist 0 true ys
  refine ⟨fun x hx => htiles.nonempty x (hsub.subset hx),
    fun x hx => htiles.within x (hsub.subset hx), htiles.ordered.sublist hsub, ?_⟩
  have hcovers := covers_dropSeparators (Reading.flawless_of_lexemes hys)
    (Reading.cutsOff_pieces cut_faithful text) 0 0 true
  rw [textOf, Reading.flatMap_pieces cut_faithful] at hcovers
  rw [Reading.eq_lexemesFrom_of_lexemes hys]
  exact hcovers

private theorem lexemes_slice {text : List Char} (hxs : lexemes text = .ok xs) (hmem : x ∈ xs)
    (hx : x.token ≠ .separator) :
    lexemes (slice x.span text) = .ok [⟨x.token, 0, width (slice x.span text)⟩] := by
  obtain ⟨ys, hys, rfl⟩ := exists_dropped_of_lexemes hxs
  have hraw := Reading.lexemes_slice cut_faithful cut_cancels hys
    ((dropSeparators_sublist 0 true ys).subset hmem)
  have hkept : dropSeparators 0 true [⟨x.token, 0, width (slice x.span text)⟩] =
      [⟨x.token, 0, width (slice x.span text)⟩] := dropSeparators_cons hx
  rw [lexemes, hraw]
  exact congrArg Except.ok hkept

end InfraGraph.Block.Token

namespace InfraGraph

open InfraGraph.Reading
open InfraGraph.Text (slice width)

/-- The tokens of a text of either language tile it, and the part that a token covers makes this
token alone; a code block is written between fences and contains none. In a code block separators
may be dropped, and none is left at the beginning, behind another one, or inside brackets. -/
theorem lexemes_tile (text : List Char) :
    (∀ xs, Definition.Token.lexemes text = .ok xs →
      Tiles Definition.Token.isGap text xs ∧
      (∀ x ∈ xs, Definition.Token.lexemes (slice x.span text) =
        .ok [⟨x.token, 0, width (slice x.span text)⟩]) ∧
      ∀ x ∈ xs, ∀ body, x.token = .code body →
        slice x.span text = fence ++ body.toList ++ fence ∧ ¬ fence <:+: body.toList) ∧
    ∀ xs, Block.Token.lexemes text = .ok xs →
      Tiles Block.Token.isSkipped text xs ∧
      (∀ x ∈ xs, x.token ≠ .separator → Block.Token.lexemes (slice x.span text) =
        .ok [⟨x.token, 0, width (slice x.span text)⟩]) ∧
      ∀ before x after, xs = before ++ x :: after → x.token = .separator →
        Block.Token.Divides before := by
  refine ⟨fun xs hxs => ⟨Definition.Token.tiles_of_lexemes hxs,
    fun x hx => Definition.Token.lexemes_slice hxs hx, fun x hx body hbody => ?_⟩,
    fun xs hxs => ⟨Block.Token.tiles_of_lexemes hxs,
      fun x hx => Block.Token.lexemes_slice hxs hx, fun before x after hsplit hx => ?_⟩⟩
  · have hwritten := Definition.Token.written_slice hxs hx
    rw [hbody] at hwritten
    exact hwritten
  · obtain ⟨ys, -, rfl⟩ := Block.Token.exists_dropped_of_lexemes hxs
    exact Block.Token.divides_of_dropSeparators hx hsplit

/-- A key with a code block and a comment. -/
def fencedText : List Char := "data \x60\x60\x60\n1\n\x60\x60\x60 # one".toList

def fencedLexemes : List (Lexeme Definition.Token) := [⟨.word "data", 0, 4⟩, ⟨.code "\n1\n", 5, 14⟩]

/-- A call over several lines, and a statement behind it. -/
def callText : List Char := "\nf(\n1);;\nx".toList

def callLexemes : List (Lexeme Block.Token) :=
  [⟨.name "f", 1, 2⟩, ⟨.symbol .parenOpen, 2, 3⟩, ⟨.int 1, 4, 5⟩, ⟨.symbol .parenClose, 5, 6⟩]

theorem fenced_and_call_tile :
    (Tiles Definition.Token.isGap fencedText fencedLexemes ∧
      slice ⟨5, 14⟩ fencedText = fence ++ "\n1\n".toList ++ fence) ∧
    Tiles Block.Token.isSkipped callText
      (callLexemes ++ [⟨.separator, 6, 7⟩, ⟨.name "x", 9, 10⟩]) ∧
    Block.Token.lexemes (slice ⟨4, 5⟩ callText) = .ok [⟨.int 1, 0, 1⟩] ∧
    Block.Token.Divides callLexemes := by
  have hfenced : Definition.Token.lexemes fencedText = .ok fencedLexemes := by rfl
  have hcall : Block.Token.lexemes callText =
      .ok (callLexemes ++ [⟨.separator, 6, 7⟩, ⟨.name "x", 9, 10⟩]) := by rfl
  obtain ⟨htiles, -, hbody⟩ := (lexemes_tile fencedText).1 _ hfenced
  obtain ⟨hcovered, halone, hdivides⟩ := (lexemes_tile callText).2 _ hcall
  refine ⟨⟨htiles, (hbody ⟨.code "\n1\n", 5, 14⟩ ?_ _ rfl).1⟩, hcovered, ?_, ?_⟩
  · simp [fencedLexemes]
  · exact halone ⟨.int 1, 4, 5⟩ (by simp [callLexemes]) (by simp)
  · exact hdivides _ ⟨.separator, 6, 7⟩ [⟨.name "x", 9, 10⟩] rfl rfl

end InfraGraph
