import InfraGraph.Proofs.Definition.Comments
import InfraGraph.Proofs.Definition.Derivation
import InfraGraph.Proofs.Definition.Errors

/-!
# Definitions with a comment taken out

Without one of its comments, a text has the same tokens, and those behind the comment stand further
to the front. It is therefore read by the same derivation, so that it means the same. Only component
types are not made of tokens: their texts are cut out of the source text between the first token and
the last one, and a comment that stands there is part of the type.

## Main results

* `Token.lexemes_uncommented` — the tokens of a text without one of its comments.
* `Grammar.typeText_opened_iff` — a comment matters to a component type if it stands inside.
* `Definitions.isComment_of_read` — the comments of a text are what the lexer skips from a hash on.
* `Definitions.read_uncommented` — a text without one of its comments is read as the same
  definitions, unless the comment stands inside a component type.
-/

namespace InfraGraph.Reading

open Text (Span width)

variable {σ τ ι : Type}

/-- A lexeme of a text, after something with a width has been put at a place of the text. -/
def Lexeme.opened (place distance : Nat) (x : Lexeme τ) : Lexeme τ :=
  ⟨x.token, x.span.opened place distance⟩

/-! ## Lexemes of parts -/

private theorem locate_map (tokens : ι → List τ) (items : List ι) (f : σ → σ) (ws : List σ) :
    locate tokens items (ws.map f) = (locate tokens items ws).map fun l => (l.1, l.2.map f) := by
  induction items generalizing ws with
  | nil => rfl
  | cons i items ih => rw [locate, locate, ← List.map_take, ← List.map_drop, ih, List.map_cons]

private theorem sublist_of_mem_locate {tokens : ι → List τ} {items : List ι} {ws : List σ}
    {l : ι × List σ} (hl : l ∈ locate tokens items ws) : l.2.Sublist ws := by
  induction items generalizing ws with
  | nil => cases hl
  | cons i items ih =>
      rw [locate] at hl
      rcases List.mem_cons.1 hl with rfl | hmore
      · exact List.take_sublist _ _
      · exact (ih hmore).trans (List.drop_sublist _ _)

end InfraGraph.Reading

namespace InfraGraph.Definition

open Reading (Lexeme lexemesFrom pieces spots)
open Text (Span slice width words isBlank)

variable {before comment after : List Char}

/-! ## Tokens -/

namespace Token

private theorem opened_of_le {x : Lexeme Token} {place distance : Nat}
    (hlt : x.span.start < x.span.stop)
    (hle : x.span.stop ≤ place) : x.opened place distance = x := by
  have hstart : x.span.start < place := by omega
  rw [Lexeme.opened, Span.opened, if_pos hstart, if_pos hle]

private theorem opened_of_ge {x : Lexeme Token} {place distance : Nat}
    (hlt : x.span.start < x.span.stop)
    (hge : place ≤ x.span.start) : x.opened place distance = x.moved distance := by
  have hstop : place < x.span.stop := by omega
  rw [Lexeme.opened, Span.opened, if_neg (Nat.not_lt.2 hge), if_neg (Nat.not_le.2 hstop)]
  rfl

/-- Without one of its comments, a text has the same tokens further to the front. -/
theorem lexemes_uncommented (h : IsComment before comment after) {xs : List (Lexeme Token)}
    (hxs : lexemes (before ++ (comment ++ after)) = .ok xs) :
    ∃ ys, lexemes (before ++ after) = .ok ys ∧
      xs = ys.map (Lexeme.opened (width before) (width comment)) := by
  obtain ⟨body, rfl, hbody⟩ := h.hash
  have hcomment : Reading.Halts ('#' :: body ++ after) := fun c more hcons =>
    .inl (List.cons.inj hcons).1.symm
  have hafter : Reading.Halts after := fun c more hcons => .inr (h.ends c more hcons)
  have hwith := spots_outside h.outside hcomment 0
  have hwithout := spots_outside h.outside hafter 0
  rw [Nat.zero_add, List.cons_append, spots_comment hbody h.ends, Reading.spots_add] at hwith
  rw [Nat.zero_add] at hwithout
  obtain ⟨hfaultless, hlexemes⟩ := Reading.lexemes_eq_ok_iff.1 hxs
  rw [List.cons_append, hwith] at hfaultless hlexemes
  refine ⟨_, Reading.lexemes_eq_ok_iff.2 ⟨?_, rfl⟩, ?_⟩
  · rw [hwithout]
    intro x hx
    rcases List.mem_append.1 hx with hbefore | hbehind
    · exact hfaultless x (List.mem_append_left _ hbefore)
    · have hmoved := List.mem_map_of_mem (f := Reading.moveSpot (width ('#' :: body))) hbehind
      show Reading.isFault (Reading.moveSpot (width ('#' :: body)) x) = false
      exact hfaultless _ (List.mem_append_right _ hmoved)
  · rw [← hlexemes, hwithout, List.filterMap_append, List.filterMap_append, List.map_append,
      Reading.filterMap_moveSpot]
    have hpieces (cs : List Char) : ∀ p ∈ pieces cut cs, p.text ≠ [] :=
      Reading.text_ne_nil_of_mem_pieces cut_faithful
    congr 1
    · -- What stands before the comment stays where it is.
      rw [spots, ← Reading.lexemesFrom_eq_filterMap]
      refine (List.map_id _).symm.trans (List.map_congr_left fun x hx => ?_)
      obtain ⟨-, hlt, hle⟩ := Reading.bounds_lexemesFrom 0 (hpieces before) x hx
      rw [Nat.zero_add, Reading.textOf, Reading.flatMap_pieces cut_faithful] at hle
      exact (opened_of_le hlt hle).symm
    · -- What stands behind the comment is moved.
      rw [spots, ← Reading.lexemesFrom_eq_filterMap]
      refine List.map_congr_left fun x hx => ?_
      obtain ⟨hge, hlt, -⟩ := Reading.bounds_lexemesFrom (width before) (hpieces after) x hx
      exact (opened_of_ge hlt hge).symm

end Token

/-! ## Component types -/

namespace Grammar

/-- A comment matters to a component type if and only if it stands inside of it. -/
theorem typeText_opened_iff (h : IsComment before comment after) {s : Span}
    (hs : s.Within (before ++ after)) (hpos : s.start < s.stop) :
    typeText (before ++ after) s =
        typeText (before ++ (comment ++ after)) (s.opened (width before) (width comment)) ↔
      ¬ s.Surrounds (width before) := by
  constructor
  · intro hsame hinside
    obtain ⟨body, rfl, -⟩ := h.hash
    obtain ⟨xs, ys, hwithout, hwith⟩ := @Text.exists_slice_opened _ ('#' :: body) _ _ hs hinside
    have hlists := String.ofList_inj.1 hsame
    have hfilters := congrArg (List.filter fun c => !isBlank c) hlists
    rw [Text.filter_intercalate_words, Text.filter_intercalate_words, hwithout, hwith] at hfilters
    have hhash : isBlank '#' = false := by decide
    have hlengths := congrArg List.length hfilters
    simp only [List.filter_append, List.length_append, List.cons_append, List.filter_cons, hhash,
      Bool.not_false, if_true, List.length_cons] at hlengths
    omega
  · intro helsewhere
    rw [typeText, typeText, Text.slice_opened hs hpos helsewhere]

private theorem typeLexemes_map (f : Lexeme Token → Lexeme Token) (cs : List ComponentTree)
    (ws : List (Lexeme Token)) :
    typeLexemes cs (ws.map f) = (typeLexemes cs ws).map (List.map f) := by
  rw [typeLexemes, typeLexemes, Reading.locate_map, List.map_map, List.map_map]
  refine List.map_congr_left fun l _ => ?_
  exact List.map_take.symm

/-- The lexemes of component types are some of the text, and there are some for each type. -/
theorem sublist_of_mem_typeLexemes {t : DefinitionsTree} {xs : List (Lexeme Token)}
    (ht : t.tokens = xs.map Lexeme.token) {ws : List (Lexeme Token)}
    (hws : ws ∈ typeLexemes t.components (xs.drop (t.defaultTokens.length + 2))) :
    ws ≠ [] ∧ ws.Sublist xs := by
  obtain ⟨l, hl, rfl⟩ := List.mem_map.1 hws
  have hdrop : (xs.drop (t.defaultTokens.length + 2)).map Lexeme.token =
      t.components.flatMap ComponentTree.tokens ++ (.mark .braceClose :: t.eventTokens) := by
    rw [List.map_drop, ← ht, DefinitionsTree.tokens, ← List.drop_drop, List.drop_left,
      DefinitionsTree.componentTokens, sectionTokens]
    simp
  obtain ⟨body, behind, hsplit, hbody, -⟩ := List.map_eq_append_iff.1 hdrop
  rw [hsplit, Reading.locate_append hbody] at hl
  have htokens := congrArg List.length (Reading.map_of_mem_locate hbody hl)
  refine ⟨fun hnil => ?_, ?_⟩
  · have hlength := congrArg List.length hnil
    rw [List.length_map] at htokens
    rw [List.length_take, htokens, ComponentTree.tokens, List.length_append,
      ComponentTree.typeTokens] at hlength
    simp at hlength
  · have hdropped : l.2.Sublist (xs.drop (t.defaultTokens.length + 2)) :=
      hsplit ▸ (Reading.sublist_of_mem_locate hl).trans (List.sublist_append_left body behind)
    exact (List.take_sublist _ _).trans (hdropped.trans (List.drop_sublist _ _))

/-- The last of some lexemes in order ends where their span does. -/
theorem exists_stop_coveredBy {x : Lexeme Token} {ws : List (Lexeme Token)}
    (hlt : ∀ y ∈ ws, y.span.start < y.span.stop)
    (hordered : (x :: ws).Pairwise fun y z => y.span.stop ≤ z.span.start) :
    ∃ y ∈ x :: ws, (coveredBy (x :: ws)).stop = y.span.stop ∧ x.span.stop ≤ y.span.stop := by
  have hlast : (ws.map Lexeme.span).getLastD x.span ∈ (x :: ws).map Lexeme.span :=
    List.getLastD_mem_cons
  obtain ⟨y, hy, hspan⟩ := List.mem_map.1 hlast
  have hstop : (coveredBy (x :: ws)).stop = y.span.stop := by
    show ((ws.map Lexeme.span).getLastD x.span).stop = y.span.stop
    rw [hspan]
  refine ⟨y, hy, hstop, ?_⟩
  rcases List.mem_cons.1 hy with rfl | hmore
  · exact Nat.le_refl _
  · have hbehind := (List.pairwise_cons.1 hordered).1 y hmore
    have hnonempty := hlt y hmore
    omega

/-- What some lexemes of a text cover is a part of it that is not empty. -/
theorem within_coveredBy {text : List Char} {xs ws : List (Lexeme Token)}
    (hxs : Token.lexemes text = .ok xs) (hne : ws ≠ []) (hsub : ws.Sublist xs) :
    (coveredBy ws).Within text ∧ (coveredBy ws).start < (coveredBy ws).stop := by
  have hwithin := Reading.within_of_lexemes_ok Token.cut_faithful hxs
  have hpieces : ∀ p ∈ pieces Token.cut text, p.text ≠ [] :=
    Reading.text_ne_nil_of_mem_pieces Token.cut_faithful
  have heq : xs = lexemesFrom 0 (pieces Token.cut text) := by
    rw [Reading.lexemesFrom_eq_filterMap]
    exact (Reading.lexemes_eq_ok_iff.1 hxs).2.symm
  have hordered : ws.Pairwise fun y z => y.span.stop ≤ z.span.start := by
    rw [heq] at hsub
    exact (Reading.ordered_lexemesFrom 0 hpieces).sublist hsub
  have hlt : ∀ y ∈ ws, y.span.start < y.span.stop := by
    intro y hy
    rw [heq] at hsub
    exact (Reading.bounds_lexemesFrom 0 hpieces y (hsub.subset hy)).2.1
  cases ws with
  | nil => exact absurd rfl hne
  | cons x ws =>
      obtain ⟨y, hy, hstop, hle⟩ :=
        exists_stop_coveredBy (fun z hz => hlt z (List.mem_cons_of_mem x hz)) hordered
      have hfirst := hlt x List.mem_cons_self
      have hpos : (coveredBy (x :: ws)).start < (coveredBy (x :: ws)).stop := by
        rw [hstop]
        show x.span.start < y.span.stop
        omega
      have hboundary : Text.Boundary text (coveredBy (x :: ws)).stop := by
        rw [hstop]
        exact (hwithin y (hsub.subset hy)).stop
      exact ⟨⟨(hwithin x (hsub.subset List.mem_cons_self)).start, hboundary, Nat.le_of_lt hpos⟩,
        hpos⟩

private theorem coveredBy_opened (place distance : Nat) {ws : List (Lexeme Token)} (hne : ws ≠ []) :
    coveredBy (ws.map (Lexeme.opened place distance)) = (coveredBy ws).opened place distance := by
  cases ws with
  | nil => exact absurd rfl hne
  | cons x ws =>
      have hlast : ((ws.map (Lexeme.opened place distance)).map Lexeme.span).getLastD
          (x.span.opened place distance) =
            ((ws.map Lexeme.span).getLastD x.span).opened place distance := by
        clear hne
        generalize x.span = span
        induction ws generalizing span with
        | nil => rfl
        | cons y ws ih =>
            simp only [List.map_cons, List.getLastD_cons]
            exact ih y.span
      rw [List.map_cons, coveredBy]
      show Span.mk _ (((ws.map (Lexeme.opened place distance)).map Lexeme.span).getLastD
        (x.span.opened place distance)).stop = _
      rw [hlast]
      rfl

end Grammar

/-! ## Definitions -/

namespace Definitions

/-- The spans of the component types. -/
def typeSpans (d : Definitions) : List Span :=
  d.components.map fun c => c.node.componentType.span

theorem exists_lexemes_of_read {text : List Char} {d : Definitions} (hd : read text = .ok d) :
    ∃ xs, Token.lexemes text = .ok xs := by
  cases hxs : Token.lexemes text with
  | error faults =>
      rw [read, hxs] at hd
      cases hd
  | ok xs => exact ⟨xs, rfl⟩

/-- The pieces of a text that begin with a hash are comments, if it is read. -/
theorem isComment_of_read {text : List Char} {d : Definitions} (hd : read text = .ok d)
    {ps qs : List (Reading.Piece Token)} {p : Reading.Piece Token}
    (hpieces : pieces Token.cut text = ps ++ p :: qs) (hhash : p.text.head? = some '#') :
    IsComment (Reading.textOf ps) p.text (Reading.textOf qs) := by
  obtain ⟨xs, hxs⟩ := exists_lexemes_of_read hd
  exact Token.isComment_of_pieces (Reading.flawless_of_lexemes hxs) hpieces hhash

/-- The texts of the component types are cut out at their spans. -/
theorem types_eq_of_read {text : List Char} {d : Definitions} (hd : read text = .ok d) :
    d.types = d.typeSpans.map (Grammar.typeText text) := by
  obtain ⟨xs, hxs⟩ := exists_lexemes_of_read hd
  obtain ⟨t, ht, -⟩ := exists_tree_of_read hxs hd
  have htypes := componentTypes_of_tree hxs ht hd
  have hnodes := congrArg (List.map Spanned.node) htypes
  have hspans := congrArg (List.map Spanned.span) htypes
  rw [List.map_map, List.map_map] at hnodes hspans
  show d.components.map (Spanned.node ∘ fun c => c.node.componentType) =
    (d.components.map (Spanned.span ∘ fun c => c.node.componentType)).map _
  rw [hnodes, hspans, List.map_map]
  rfl

/-- The spans of the component types cover their lexemes. -/
theorem typeSpans_of_tree {text : List Char} {xs : List (Lexeme Token)}
    (hxs : Token.lexemes text = .ok xs) {t : DefinitionsTree}
    (ht : t.tokens = xs.map Lexeme.token) {d : Definitions} (hd : read text = .ok d) :
    d.typeSpans = (Grammar.typeLexemes t.components
      (xs.drop (t.defaultTokens.length + 2))).map Grammar.coveredBy := by
  have hspans := congrArg (List.map Spanned.span) (componentTypes_of_tree hxs ht hd)
  rw [List.map_map, List.map_map] at hspans
  exact hspans

/-- Definitions that are the same up to places have the same types. -/
theorem types_eq_of_unplaced {d e : Definitions} (h : d.unplaced = e.unplaced) :
    d.types = e.types := by
  have htypes (k : Definitions) : k.unplaced.types = k.types := by
    show (k.components.map _).map _ = k.components.map _
    rw [List.map_map]
    rfl
  rw [← htypes d, ← htypes e, h]

/-- Without one of its comments, a text is read by the same derivation; the spans of the component
types move, or shrink by the comment. -/
theorem typeSpans_uncommented (h : IsComment before comment after) {d : Definitions}
    (hd : read (before ++ (comment ++ after)) = .ok d) :
    ∃ e, read (before ++ after) = .ok e ∧ e.unplaced.untyped = d.unplaced.untyped ∧
      d.typeSpans = e.typeSpans.map (Span.opened (width before) (width comment)) ∧
      ∀ s ∈ e.typeSpans, s.Within (before ++ after) ∧ s.start < s.stop := by
  obtain ⟨xs, hxs⟩ := exists_lexemes_of_read hd
  obtain ⟨ys, hys, hmoved⟩ := Token.lexemes_uncommented h hxs
  obtain ⟨t, ht, hmeans⟩ := exists_tree_of_read hxs hd
  have htokens : t.tokens = ys.map Lexeme.token := by
    rw [ht, hmoved, List.map_map]
    rfl
  obtain ⟨e, he, huntyped, -⟩ := read_of_tree hys htokens
  have hsome : ∀ ws ∈ Grammar.typeLexemes t.components (ys.drop (t.defaultTokens.length + 2)),
      ws ≠ [] ∧ ws.Sublist ys := fun ws hws => Grammar.sublist_of_mem_typeLexemes htokens hws
  refine ⟨e, he, huntyped.trans hmeans.symm, ?_, fun s hs => ?_⟩
  · rw [typeSpans_of_tree hxs ht hd, typeSpans_of_tree hys htokens he, hmoved, ← List.map_drop,
      Grammar.typeLexemes_map, List.map_map, List.map_map]
    exact List.map_congr_left fun ws hws => Grammar.coveredBy_opened _ _ (hsome ws hws).1
  · rw [typeSpans_of_tree hys htokens he] at hs
    obtain ⟨ws, hws, rfl⟩ := List.mem_map.1 hs
    exact Grammar.within_coveredBy hys (hsome ws hws).1 (hsome ws hws).2

/-- Without one of its comments, a text is read as the same definitions, places and texts of
component types aside. These are the same, too, if and only if the comment stands inside none of
them. -/
theorem read_uncommented (h : IsComment before comment after) {d : Definitions}
    (hd : read (before ++ (comment ++ after)) = .ok d) :
    ∃ e, read (before ++ after) = .ok e ∧ e.unplaced.untyped = d.unplaced.untyped ∧
      (e.unplaced = d.unplaced ↔ ∀ s ∈ d.typeSpans, ¬ s.Surrounds (width before)) := by
  obtain ⟨e, he, huntyped, hspans, hwithin⟩ := typeSpans_uncommented h hd
  refine ⟨e, he, huntyped, ?_⟩
  have hunplaced : e.unplaced = d.unplaced ↔ e.types = d.types :=
    ⟨types_eq_of_unplaced, unplaced_eq_of_untyped huntyped⟩
  have htypes : e.types = d.types ↔ ∀ s ∈ e.typeSpans, ¬ s.Surrounds (width before) := by
    rw [types_eq_of_read he, types_eq_of_read hd, hspans, List.map_map, List.map_inj_left]
    refine forall₂_congr fun s hs => ?_
    exact Grammar.typeText_opened_iff h (hwithin s hs).1 (hwithin s hs).2
  have hopened (s : Span) :
      (s.opened (width before) (width comment)).Surrounds (width before) ↔
        s.Surrounds (width before) := by
    unfold Span.Surrounds Span.opened
    dsimp only
    split <;> split <;> omega
  rw [hunplaced, htypes, hspans, List.forall_mem_map]
  exact forall₂_congr fun s _ => not_congr (hopened s).symm

theorem exists_read_of_map {text : List Char} {α : Type} {f : Definitions → α} {a : α}
    (h : (read text).toOption.map f = some a) : ∃ d, read text = .ok d ∧ f d = a := by
  cases hd : read text with
  | error errors =>
      rw [hd] at h
      cases h
  | ok d =>
      rw [hd] at h
      exact ⟨d, rfl, Option.some.inj h⟩

/-- A comment behind the section of components is no part of them; nor is the hash in a string. -/
theorem read_uncommented_behind :
    ∃ d e, read ("components \x7bHost(name \"#1\")\x7d ".toList ++
          ("# one".toList ++ "\nevents \x7b\x7d".toList)) = .ok d ∧
      read ("components \x7bHost(name \"#1\")\x7d ".toList ++
        "\nevents \x7b\x7d".toList) = .ok e ∧
      d.typeSpans = [⟨12, 16⟩] ∧ e.unplaced = d.unplaced := by
  have hcomment : IsComment "components \x7bHost(name \"#1\")\x7d ".toList "# one".toList
      "\nevents \x7b\x7d".toList := by
    refine ⟨?_, ⟨" one".toList, rfl, by decide⟩, fun c more hcons => (List.cons.inj hcons).1.symm⟩
    have hname : Reading.QuotedBody '"' "#1".toList :=
      .plain (by decide) (by decide) (.plain (by decide) (by decide) .nil)
    have hend : Outside ")\x7d ".toList := .of_forall_isPlain (List.all_eq_true.1 rfl)
    have hstart : ∀ c ∈ "components \x7bHost(name ".toList, isPlain c = true :=
      List.all_eq_true.1 rfl
    exact .append_of_isPlain hstart (.quoted (.inl rfl) hname hend)
  have hspans : (read ("components \x7bHost(name \"#1\")\x7d ".toList ++
      ("# one".toList ++ "\nevents \x7b\x7d".toList))).toOption.map typeSpans =
        some [⟨12, 16⟩] := by
    decide +kernel
  obtain ⟨d, hd, htype⟩ := exists_read_of_map hspans
  obtain ⟨e, he, -, hsame⟩ := read_uncommented hcomment hd
  refine ⟨d, e, hd, he, htype, hsame.2 ?_⟩
  rw [htype]
  decide

/-- A comment between the words of a component type is part of the type. -/
theorem read_uncommented_inside :
    IsComment "components \x7b Host ".toList "# c".toList "\n B(name \"a\") \x7d".toList ∧
      ∃ d e, read ("components \x7b Host ".toList ++
            ("# c".toList ++ "\n B(name \"a\") \x7d".toList)) = .ok d ∧
        read ("components \x7b Host ".toList ++ "\n B(name \"a\") \x7d".toList) = .ok e ∧
        d.types = ["Host # c B"] ∧ e.types = ["Host B"] ∧ e.unplaced ≠ d.unplaced := by
  refine ⟨⟨.of_forall_isPlain (List.all_eq_true.1 rfl), ⟨" c".toList, rfl, by decide⟩,
    fun c more hcons => (List.cons.inj hcons).1.symm⟩, ?_⟩
  have hwith : (read ("components \x7b Host ".toList ++
      ("# c".toList ++ "\n B(name \"a\") \x7d".toList))).toOption.map Definitions.types =
        some ["Host # c B"] := by
    decide +kernel
  have hwithout : (read ("components \x7b Host ".toList ++
      "\n B(name \"a\") \x7d".toList)).toOption.map Definitions.types = some ["Host B"] := by
    decide +kernel
  obtain ⟨d, hd, htypes⟩ := exists_read_of_map hwith
  obtain ⟨e, he, hothers⟩ := exists_read_of_map hwithout
  refine ⟨d, e, hd, he, htypes, hothers, fun hsame => ?_⟩
  have habsurd := types_eq_of_unplaced hsame
  rw [htypes, hothers] at habsurd
  exact absurd habsurd (by decide)

end Definitions

end InfraGraph.Definition
