import InfraGraph.Proofs.Definition.Spelling
import InfraGraph.Proofs.Reading.Places

/-!
# Texts with a comment behind them

A comment begins with a hash outside of strings, code blocks and other comments, and it ends before
the next newline. What stands before it is therefore made of plain characters, quoted strings, code
blocks and whole comments. Such a text is cut into the same pieces with a comment, a newline or
nothing behind it: the last piece before ends there in each case.

## Main results

* `Outside` — the end of a text lies outside of strings, code blocks and comments.
* `Token.cutsOutside` — the first piece of such a text does not depend on what follows the text.
* `Token.spots_outside` — neither do any of its pieces.
* `Token.spots_comment` — a comment has no pieces but gaps.
* `Token.isComment_of_pieces` — among the pieces of a text without faults, comments are those that
  begin with a hash.
-/

namespace InfraGraph.Definition

open Reading (Piece PieceKind Halts Numeral QuotedBody continuesWord cutNumeral cutQuoted cutStray
  cutWhile fence numeral pieces spots startsWord textOf unescape ne_of_class)
open Text (width)

/-! ## What stands before a comment -/

/-- The characters that begin no string, code block or comment. -/
def isPlain (c : Char) : Bool := c != '"' && c != '\'' && c != '\x60' && c != '#'

/-- The end of a text lies outside of strings, code blocks and comments. -/
inductive Outside : List Char → Prop
  | nil : Outside []
  | plain {c : Char} {cs : List Char} (hc : isPlain c = true) (h : Outside cs) : Outside (c :: cs)
  | quoted {quote : Char} {body rest : List Char} (hquote : quote = '"' ∨ quote = '\'')
      (hbody : QuotedBody quote body) (h : Outside rest) :
      Outside (quote :: (body ++ quote :: rest))
  | code {body rest : List Char} (hfence : ¬ fence <:+: body)
      (hlast : body.getLast? ≠ some '\x60') (h : Outside rest) :
      Outside ('\x60' :: '\x60' :: '\x60' :: (body ++ (fence ++ rest)))
  | comment {body rest : List Char} (hbody : '\n' ∉ body) (h : Outside rest) :
      Outside ('#' :: (body ++ '\n' :: rest))

/-- A comment of a text, between what stands before it and what stands after it. -/
structure IsComment (before comment after : List Char) : Prop where
  outside : Outside before
  hash : ∃ body, comment = '#' :: body ∧ '\n' ∉ body
  ends : ∀ c more, after = c :: more → c = '\n'

namespace Outside

theorem of_cons {c : Char} {cs : List Char} (hc : isPlain c = true) (h : Outside (c :: cs)) :
    Outside cs := by
  cases h with
  | plain _ h => exact h
  | quoted hquote _ _ => rcases hquote with rfl | rfl <;> exact absurd hc (by decide)
  | code _ _ _ => exact absurd hc (by decide)
  | comment _ _ => exact absurd hc (by decide)

/-- Plain characters may be put before a text that ends outside. -/
theorem append_of_isPlain {cs rest : List Char} (hcs : ∀ c ∈ cs, isPlain c = true)
    (h : Outside rest) : Outside (cs ++ rest) := by
  induction cs with
  | nil => exact h
  | cons c cs ih =>
      exact .plain (hcs c List.mem_cons_self) (ih fun d hd => hcs d (List.mem_cons_of_mem c hd))

theorem of_forall_isPlain {cs : List Char} (hcs : ∀ c ∈ cs, isPlain c = true) : Outside cs := by
  rw [← List.append_nil cs]
  exact append_of_isPlain hcs .nil

/-- Plain characters may be taken away from the start of a text that ends outside. -/
theorem of_append {cs rest : List Char} (hcs : ∀ c ∈ cs, isPlain c = true)
    (h : Outside (cs ++ rest)) : Outside rest := by
  induction cs with
  | nil => exact h
  | cons c cs ih =>
      have htail : Outside (cs ++ rest) := of_cons (hcs c List.mem_cons_self) h
      exact ih (fun d hd => hcs d (List.mem_cons_of_mem c hd)) htail

end Outside

/-- A class without quotes, backticks and hashes has plain characters only. -/
theorem isPlain_of_class {p : Char → Bool} {c : Char} (hc : p c = true) (hdouble : p '"' = false)
    (hsingle : p '\'' = false) (hbacktick : p '\x60' = false) (hhash : p '#' = false) :
    isPlain c = true := by
  simp [isPlain, ne_of_class hc hdouble, ne_of_class hc hsingle, ne_of_class hc hbacktick,
    ne_of_class hc hhash]

theorem isPlain_of_mem_numeral {bareExponent : Bool} {c : Char} {cs : List Char}
    (hc : c ∈ (numeral bareExponent cs).text) : isPlain c = true :=
  isPlain_of_class (Reading.isNumeralChar_of_mem_numeral hc) rfl rfl rfl rfl

theorem Outside.rest_numeral {bareExponent : Bool} {cs : List Char} (h : Outside cs) :
    Outside (numeral bareExponent cs).rest := by
  rw [← Numeral.text_append_rest bareExponent cs] at h
  exact h.of_append fun c hc => isPlain_of_mem_numeral hc

namespace Token

/-! ## Single pieces -/

/-- A quoted string is cut off whole. -/
theorem cut_quoted {quote : Char} (hquote : quote = '"' ∨ quote = '\'') {body : List Char}
    (hbody : QuotedBody quote body) (rest : List Char) :
    cut quote (body ++ quote :: rest) =
      (⟨quote :: (body ++ [quote]), .token (string (String.ofList (unescape body)))⟩, rest) := by
  have hback : quote ≠ '\\' := by rcases hquote with rfl | rfl <;> decide
  have hcut : cut quote (body ++ quote :: rest) =
      cutQuoted string quote (body ++ quote :: rest) := by
    rcases hquote with rfl | rfl <;> rfl
  rw [hcut, cutQuoted, Reading.quoted_of_body hback hbody, if_pos rfl]
  rfl

/-- A code block is cut off whole. -/
theorem cut_code {body : List Char} (hfence : ¬ fence <:+: body)
    (hlast : body.getLast? ≠ some '\x60') (rest : List Char) :
    cut '\x60' ('\x60' :: '\x60' :: (body ++ (fence ++ rest))) =
      (⟨fence ++ body ++ fence, .token (code (String.ofList body))⟩, rest) := by
  have hcut : cut '\x60' ('\x60' :: '\x60' :: (body ++ (fence ++ rest))) =
      cutCode '\x60' ('\x60' :: '\x60' :: (body ++ (fence ++ rest))) := rfl
  have hopen : fence.isPrefixOf ('\x60' :: '\x60' :: '\x60' :: (body ++ (fence ++ rest))) = true :=
    rfl
  rw [hcut, cutCode, if_pos hopen, List.drop_succ_cons, List.drop_succ_cons, List.drop_zero,
    untilFence_append hfence hlast]

/-- What is left behind the first piece ends outside, and the piece does not depend on what halts
behind it. -/
def CutsOutside (c : Char) (cs : List Char) : Prop :=
  Outside (cut c cs).2 ∧
    ∀ behind, Halts behind → cut c (cs ++ behind) = ((cut c cs).1, (cut c cs).2 ++ behind)

/-- A piece is known if it is known with what halts behind it. -/
theorem cutsOutside_of_cut {c : Char} {cs rest : List Char} (p : Piece Token)
    (hrest : Outside rest)
    (hcut : ∀ behind, Halts behind → cut c (cs ++ behind) = (p, rest ++ behind)) :
    CutsOutside c cs := by
  have halone := hcut [] fun _ _ h => by cases h
  rw [List.append_nil, List.append_nil] at halone
  rw [CutsOutside, halone]
  exact ⟨hrest, hcut⟩

private theorem cutsOutside_word {c : Char} {cs : List Char} (hword : startsWord c = true)
    (hcs : Outside cs) : CutsOutside c cs := by
  rw [← List.takeWhile_append_dropWhile (p := continuesWord) (l := cs)] at hcs
  have hrest : Outside (cs.dropWhile continuesWord) := hcs.of_append fun d hd =>
    isPlain_of_class (List.mem_takeWhile_imp hd : continuesWord d = true) rfl rfl rfl rfl
  refine cutsOutside_of_cut
    ⟨c :: cs.takeWhile continuesWord, .token (ofWord (c :: cs.takeWhile continuesWord))⟩
    hrest fun behind hbehind => ?_
  have hstop := hbehind.stops (p := continuesWord) rfl rfl
  rw [commonCut.word _ hword, Reading.cutWhile, Reading.takeWhile_halts hstop,
    Reading.dropWhile_halts hstop]

private theorem cutsOutside_digit {c : Char} {cs : List Char} (hdigit : c.isDigit = true)
    (h : Outside (c :: cs)) : CutsOutside c cs := by
  have hrest : Outside (cutNumeral numberRule [] (c :: cs)).2 := by
    rw [Reading.rest_cutNumeral]
    exact h.rest_numeral
  refine cutsOutside_of_cut (cutNumeral numberRule [] (c :: cs)).1 hrest fun behind hbehind => ?_
  rw [commonCut.number _ hdigit, ← List.cons_append, Reading.cutNumeral_halts hbehind.endsNumeral]

private theorem cutsOutside_sign {cs : List Char} (h : Outside cs) : CutsOutside '-' cs := by
  have hcut (ds : List Char) : cut '-' ds =
      if (Decimal.leadingDigits ds).isEmpty then
        (⟨['-'], .fault (.badNumber ['-']) ['-']⟩, ds)
      else cutNumeral numberRule ['-'] ds := rfl
  have hleading {behind : List Char} (hbehind : Halts behind) :
      Decimal.leadingDigits (cs ++ behind) = Decimal.leadingDigits cs :=
    Reading.takeWhile_halts (hbehind.stops rfl rfl) cs
  by_cases hdigits : (Decimal.leadingDigits cs).isEmpty = true
  · refine cutsOutside_of_cut ⟨['-'], .fault (.badNumber ['-']) ['-']⟩ h fun behind hbehind => ?_
    rw [hcut, hleading hbehind, if_pos hdigits]
  · have hrest : Outside (cutNumeral numberRule ['-'] cs).2 := by
      rw [Reading.rest_cutNumeral]
      exact h.rest_numeral
    refine cutsOutside_of_cut (cutNumeral numberRule ['-'] cs).1 hrest fun behind hbehind => ?_
    rw [hcut, hleading hbehind, if_neg hdigits, Reading.cutNumeral_halts hbehind.endsNumeral]

/-- Every piece that does not begin with a blank is cut off as itself before what halts. -/
theorem cutsOutside {c : Char} {cs : List Char} (h : Outside (c :: cs)) (hgap : isGap c = false)
    (hhash : c ≠ '#') : CutsOutside c cs := by
  cases h with
  | comment _ _ => exact absurd rfl hhash
  | @quoted _ body rest hquote hbody hrest =>
      refine cutsOutside_of_cut
        ⟨c :: (body ++ [c]), .token (string (String.ofList (unescape body)))⟩
        hrest fun behind _ => ?_
      rw [List.append_assoc, List.cons_append]
      exact cut_quoted hquote hbody _
  | @code body rest hfence hlast hrest =>
      refine cutsOutside_of_cut
        ⟨fence ++ body ++ fence, .token (code (String.ofList body))⟩ hrest fun behind _ => ?_
      have htext : '\x60' :: '\x60' :: (body ++ (fence ++ rest)) ++ behind =
          '\x60' :: '\x60' :: (body ++ (fence ++ (rest ++ behind))) := by simp
      rw [htext]
      exact cut_code hfence hlast _
  | plain hplain hcs =>
      by_cases hword : startsWord c = true
      · exact cutsOutside_word hword hcs
      by_cases hdigit : c.isDigit = true
      · exact cutsOutside_digit hdigit (.plain hplain hcs)
      by_cases hsign : c = '-'
      · subst hsign
        exact cutsOutside_sign hcs
      -- A mark, or a character at which no token begins: neither looks further.
      have hnogap : ¬ isGap c = true := by simp [hgap]
      have hquote : ¬ (c = '"' ∨ c = '\'') := by
        rintro (rfl | rfl) <;> exact absurd hplain (by decide)
      have hbacktick : c ≠ '\x60' := by
        rintro rfl
        exact absurd hplain (by decide)
      have hcut (ds : List Char) : cut c ds = (Mark.ofChar? c).elim (cutStray c ds) fun m =>
          (⟨[c], .token (mark m)⟩, ds) := by
        rw [cut, if_neg hnogap, if_neg hhash, if_neg hword, if_neg hquote, if_neg hdigit,
          if_neg hsign, if_neg hbacktick]
        cases Mark.ofChar? c <;> rfl
      cases hmark : Mark.ofChar? c with
      | some m =>
          refine cutsOutside_of_cut ⟨[c], .token (mark m)⟩ hcs fun behind _ => ?_
          simp only [hcut, hmark, Option.elim_some]
      | none =>
          refine cutsOutside_of_cut ⟨[c], .fault (.stray [c]) [c]⟩ hcs fun behind _ => ?_
          simp only [hcut, hmark, Option.elim_none, cutStray]

/-! ## All pieces -/

/-- Blanks at the start of a text are gaps. -/
theorem spots_dropWhile_isGap (offset : Nat) (cs : List Char) :
    spots cut offset cs =
      spots cut (offset + width (cs.takeWhile isGap)) (cs.dropWhile isGap) := by
  cases cs with
  | nil => rfl
  | cons c cs =>
      by_cases hc : isGap c = true
      · have hcut : cut c cs = (⟨c :: cs.takeWhile isGap, .gap⟩, cs.dropWhile isGap) := by
          rw [cut, if_pos hc]
          rfl
        rw [Reading.spots_cons cut_faithful, hcut, List.takeWhile_cons, if_pos hc,
          List.dropWhile_cons, if_pos hc]
        rfl
      · rw [List.takeWhile_cons, if_neg hc, List.dropWhile_cons, if_neg hc]
        rfl

/-- A blank only moves what follows it. -/
theorem spots_blank {c : Char} (hc : isGap c = true) (offset : Nat) (cs : List Char) :
    spots cut offset (c :: cs) = spots cut (offset + c.utf8Size) cs := by
  rw [spots_dropWhile_isGap, List.takeWhile_cons, if_pos hc, List.dropWhile_cons, if_pos hc,
    spots_dropWhile_isGap (offset + c.utf8Size), Text.width_cons, Nat.add_assoc]

/-- A comment only moves what follows it. -/
theorem spots_comment {body behind : List Char} (hbody : '\n' ∉ body)
    (hbehind : ∀ c more, behind = c :: more → c = '\n') (offset : Nat) :
    spots cut offset ('#' :: (body ++ behind)) =
      spots cut (offset + width ('#' :: body)) behind := by
  have hcut : cut '#' (body ++ behind) = (⟨'#' :: body, .gap⟩, behind) := by
    have hcs : ∀ d ∈ body, (d != '\n') = true := by
      intro d hd
      rw [bne_iff_ne]
      rintro rfl
      exact hbody hd
    have hstop : ∀ d more, behind = d :: more → (d != '\n') = false := by
      intro d more hcons
      rw [hbehind d more hcons]
      rfl
    exact Reading.cutWhile_append (fun _ => .gap) '#' hcs hstop
  rw [Reading.spots_cons cut_faithful, hcut]
  rfl

/-- The pieces of a text that ends outside come before those of what halts behind it. -/
theorem spots_outside {cs behind : List Char} (hcs : Outside cs) (hbehind : Halts behind)
    (offset : Nat) :
    spots cut offset (cs ++ behind) =
      spots cut offset cs ++ spots cut (offset + width cs) behind := by
  induction hlength : cs.length using Nat.strongRecOn generalizing cs offset with
  | ind n ih =>
      subst hlength
      cases cs with
      | nil => rfl
      | cons c cs =>
          rw [List.cons_append]
          by_cases hgap : isGap c = true
          · have hplain : isPlain c = true := isPlain_of_class hgap rfl rfl rfl rfl
            have hmore := ih cs.length (by simp) (hcs.of_cons hplain) (offset + c.utf8Size) rfl
            rw [spots_blank hgap, spots_blank hgap, hmore, Text.width_cons, Nat.add_assoc]
          by_cases hhash : c = '#'
          · subst hhash
            cases hcs with
            | plain hc _ => exact absurd hc (by decide)
            | quoted hquote _ _ => exact absurd hquote (by decide)
            | @comment body rest hbody hrest =>
                have hnewline : Outside ('\n' :: rest) := .plain rfl hrest
                have hshorter : ('\n' :: rest).length < ('#' :: (body ++ '\n' :: rest)).length := by
                  simp only [List.length_cons, List.length_append]
                  omega
                have hmore := ih ('\n' :: rest).length hshorter hnewline
                  (offset + width ('#' :: body)) rfl
                have htext : body ++ '\n' :: rest ++ behind =
                    body ++ ('\n' :: rest ++ behind) := by simp
                have hcomment (more : List Char) := spots_comment hbody
                  (fun c _ h => (List.cons.inj h).1.symm :
                    ∀ c ds, '\n' :: more = c :: ds → c = '\n') offset
                rw [htext, List.cons_append, hcomment, hcomment, ← List.cons_append, hmore]
                simp only [Text.width_cons, Text.width_append, Nat.add_assoc]
          · have hfirst := cutsOutside hcs (by simpa using hgap) hhash
            obtain ⟨happend, hne⟩ := cut_faithful c cs
            have hshorter : (cut c cs).2.length < (c :: cs).length := by
              have hpos := List.length_pos_iff.2 hne
              rw [← happend, List.length_append]
              omega
            have hmore := ih (cut c cs).2.length hshorter hfirst.1
              (offset + width (cut c cs).1.text) rfl
            have hwidth := congrArg width happend
            rw [Text.width_append] at hwidth
            rw [Reading.spots_cons cut_faithful, Reading.spots_cons cut_faithful,
              hfirst.2 behind hbehind, hmore, List.append_assoc, ← hwidth, Nat.add_assoc]

/-! ## Comments among the pieces of a text -/

private theorem isPlain_of_ofChar? {c : Char} {m : Mark} (hm : Mark.ofChar? c = some m) :
    isPlain c = true := by
  have hmark : (Mark.ofChar? c).isSome = true := by
    rw [hm]
    rfl
  exact isPlain_of_class (p := fun d => (Mark.ofChar? d).isSome) hmark rfl rfl rfl rfl

private theorem outside_quoted {quote : Char} {cs more : List Char}
    (hquote : quote = '"' ∨ quote = '\'') (hmore : Outside more)
    (hflawless : ∀ cause shown, (cutQuoted string quote cs).1.kind ≠ .fault cause shown) :
    Outside ((cutQuoted string quote cs).1.text ++ more) := by
  unfold cutQuoted at hflawless ⊢
  dsimp only at hflawless ⊢
  split
  · rename_i hclosed
    have hbody : QuotedBody quote (Reading.quoted quote cs).body :=
      Reading.quotedBody_of_closed hclosed
    rw [Reading.Quoted.taken, if_pos hclosed, List.cons_append, List.append_assoc]
    exact .quoted hquote hbody hmore
  · rename_i hopen
    rw [if_neg hopen] at hflawless
    exact absurd rfl (hflawless _ _)

private theorem outside_code {c : Char} {cs more : List Char} (hmore : Outside more)
    (hflawless : ∀ cause shown, (cutCode c cs).1.kind ≠ .fault cause shown) :
    Outside ((cutCode c cs).1.text ++ more) := by
  unfold cutCode at hflawless ⊢
  split
  · rename_i hprefix
    rw [if_pos hprefix] at hflawless
    split
    · rename_i body rest huntil
      obtain ⟨hfence, hlast⟩ := fenceless_of_untilFence huntil
      have htext : fence ++ body ++ fence ++ more =
          '\x60' :: '\x60' :: '\x60' :: (body ++ (fence ++ more)) := by simp [fence]
      dsimp only
      rw [htext]
      exact .code hfence hlast hmore
    · rename_i huntil
      rw [huntil] at hflawless
      exact absurd rfl (hflawless _ _)
  · rename_i hprefix
    rw [if_neg hprefix] at hflawless
    exact absurd rfl (hflawless _ _)

private theorem outside_cutWhile {p : Char → Bool} {kind : List Char → PieceKind Token} {c : Char}
    {cs more : List Char} (hc : p c = true) (hplain : ∀ d, p d = true → isPlain d = true)
    (hmore : Outside more) : Outside ((cutWhile p kind c cs).1.text ++ more) :=
  .append_of_isPlain (List.forall_mem_cons.2 ⟨hplain c hc, fun d hd =>
    hplain d (List.mem_takeWhile_imp hd)⟩) hmore

private theorem outside_cutNumeral {sign cs more : List Char} (hsign : ∀ d ∈ sign, isPlain d = true)
    (hmore : Outside more) : Outside ((cutNumeral numberRule sign cs).1.text ++ more) := by
  rw [Reading.text_cutNumeral]
  refine .append_of_isPlain (fun d hd => ?_) hmore
  rcases List.mem_append.1 hd with hd | hd
  · exact hsign d hd
  · exact isPlain_of_mem_numeral hd

/-- A text ends outside if it does so behind its first piece. A comment needs its newline. -/
theorem outside_cut {c : Char} {cs more : List Char} (hmore : Outside more)
    (hflawless : ∀ cause shown, (cut c cs).1.kind ≠ .fault cause shown)
    (hnewline : c = '#' → ∃ ds, more = '\n' :: ds) : Outside ((cut c cs).1.text ++ more) := by
  generalize hp : (cut c cs).1 = p at hflawless ⊢
  unfold cut at hp
  split at hp
  · rename_i hgap
    subst hp
    exact outside_cutWhile hgap (fun d hd => isPlain_of_class hd rfl rfl rfl rfl) hmore
  split at hp
  · rename_i hhash
    subst hp hhash
    obtain ⟨ds, rfl⟩ := hnewline rfl
    have hbody : '\n' ∉ cs.takeWhile (· != '\n') := fun hmem =>
      absurd (List.mem_takeWhile_imp hmem) (by decide)
    exact .comment hbody (hmore.of_cons rfl)
  split at hp
  · rename_i hword
    have hcontinues : continuesWord c = true := by simp [continuesWord, hword]
    subst hp
    exact outside_cutWhile hcontinues (fun d hd => isPlain_of_class hd rfl rfl rfl rfl) hmore
  split at hp
  · rename_i hquote
    subst hp
    exact outside_quoted hquote hmore hflawless
  split at hp
  · subst hp
    exact outside_cutNumeral (fun d hd => absurd hd List.not_mem_nil) hmore
  split at hp
  · rename_i hsign
    subst hsign
    split at hp
    · subst hp
      exact absurd rfl (hflawless _ _)
    · subst hp
      exact outside_cutNumeral (List.forall_mem_singleton.2 rfl) hmore
  split at hp
  · subst hp
    exact outside_code hmore hflawless
  split at hp
  · rename_i hmark
    subst hp
    exact .plain (isPlain_of_ofChar? hmark) hmore
  · subst hp
    exact absurd rfl (hflawless _ _)

/-- What is left behind a comment begins with a newline. -/
theorem newline_of_cut {cs more : List Char} {c : Char} (h : (cut '#' cs).2 = c :: more) :
    c = '\n' := by
  have hne : cs.dropWhile (· != '\n') ≠ [] := by
    intro hnil
    cases hnil.symm.trans h
  have hfirst := List.head_dropWhile_not (· != '\n') hne
  have hhead : (cs.dropWhile (· != '\n')).head hne = c := by
    simp [show cs.dropWhile (· != '\n') = c :: more from h]
  rw [hhead] at hfirst
  simpa using hfirst

private theorem head?_cut (c : Char) (cs : List Char) : (cut c cs).1.text.head? = some c := by
  obtain ⟨happend, hne⟩ := cut_faithful c cs
  cases htext : (cut c cs).1.text with
  | nil => exact absurd htext hne
  | cons d ds =>
      rw [htext] at happend
      exact congrArg some (List.cons.inj happend).1

/-- Among the pieces of a text without faults, those that begin with a hash are comments. -/
theorem isComment_of_pieces {cs : List Char} {ps qs : List (Piece Token)} {p : Piece Token}
    (hflawless : Reading.Flawless (pieces cut cs)) (hpieces : pieces cut cs = ps ++ p :: qs)
    (hhash : p.text.head? = some '#') : IsComment (textOf ps) p.text (textOf qs) := by
  induction ps generalizing cs with
  | nil =>
      cases cs with
      | nil => cases hpieces
      | cons c cs =>
          rw [Reading.pieces_cons cut_faithful, List.nil_append] at hpieces
          obtain ⟨rfl, rfl⟩ := List.cons.inj hpieces
          rw [head?_cut] at hhash
          cases hhash
          have hbody : '\n' ∉ cs.takeWhile (· != '\n') := fun hmem =>
            absurd (List.mem_takeWhile_imp hmem) (by decide)
          refine ⟨.nil, ⟨_, rfl, hbody⟩, fun c more hcons => ?_⟩
          rw [textOf, Reading.flatMap_pieces cut_faithful] at hcons
          exact newline_of_cut hcons
  | cons q ps ih =>
      cases cs with
      | nil => cases hpieces
      | cons c cs =>
          rw [Reading.pieces_cons cut_faithful, List.cons_append] at hpieces
          rw [Reading.pieces_cons cut_faithful] at hflawless
          obtain ⟨rfl, hmore⟩ := List.cons.inj hpieces
          obtain ⟨hfirst, hothers⟩ := List.forall_mem_cons.1 hflawless
          have hcomment := ih hothers hmore
          have hnewline : c = '#' → ∃ ds, textOf ps = '\n' :: ds := by
            rintro rfl
            have hrest : (cut '#' cs).2 = textOf ps ++ (p.text ++ textOf qs) := by
              have htext := congrArg textOf hmore
              rwa [textOf, Reading.flatMap_pieces cut_faithful, Reading.textOf_append,
                Reading.textOf_cons] at htext
            cases hps : textOf ps with
            | nil =>
                obtain ⟨body, hbody, -⟩ := hcomment.hash
                rw [hps, hbody] at hrest
                exact absurd (newline_of_cut hrest) (by decide)
            | cons d ds =>
                rw [hps] at hrest
                rw [newline_of_cut hrest]
                exact ⟨ds, rfl⟩
          rw [Reading.textOf_cons]
          exact ⟨outside_cut hcomment.outside hfirst hnewline, hcomment.hash, hcomment.ends⟩

end Token

end InfraGraph.Definition
