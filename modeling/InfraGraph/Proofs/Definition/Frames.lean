import InfraGraph.Proofs.Definition.Tiling
import InfraGraph.Proofs.Definition.Uncommented

/-!
# Spans inside of spans

A part of a definition has the span from the first to the last of its lexemes. Where lexemes are
divided into parts, some of them being left out between the parts, the spans of the parts stand in
the span of all of them, one after the other.

## Main results

* `Frames` — the spans of a part and of its parts.
* `Divided` — lexemes with the spans of the parts that they are divided into.
* `Fits.frames` — lexemes that are divided into parts have spans inside of each other.
-/

namespace InfraGraph.Text

/-- The spans of a part of a text and of its parts: none is empty, and the latter stand in the
former, one after the other. -/
structure Frames (text : List Char) (outer : Span) (inner : List Span) : Prop where
  within : ∀ s ∈ outer :: inner, s.Within text
  nonempty : ∀ s ∈ outer :: inner, s.start < s.stop
  inside : ∀ s ∈ inner, outer.start ≤ s.start ∧ s.stop ≤ outer.stop
  ordered : inner.Pairwise fun s t => s.stop ≤ t.start

end InfraGraph.Text

namespace InfraGraph.Definition.Grammar

open Reading (Lexeme)
open Text (Frames Span)

variable {text : List Char} {xs ws us vs : List (Lexeme Token)}

/-! ## Lexemes and their spans -/

private theorem getLastD_map_span (ws : List (Lexeme Token)) (x : Lexeme Token) :
    (ws.map Lexeme.span).getLastD x.span = ((x :: ws).getLast (List.cons_ne_nil x ws)).span := by
  induction ws generalizing x with
  | nil => rfl
  | cons y ws ih =>
      rw [List.map_cons, List.getLastD_cons, List.getLast_cons_cons]
      exact ih y

/-- Lexemes cover the text from the first to the last of them. -/
theorem coveredBy_eq (hne : ws ≠ []) :
    coveredBy ws = ⟨(ws.head hne).span.start, (ws.getLast hne).span.stop⟩ := by
  cases ws with
  | nil => exact absurd rfl hne
  | cons x ws =>
      rw [coveredBy, getLastD_map_span]
      rfl

theorem coveredBy_append (hus : us ≠ []) (hvs : vs ≠ []) :
    coveredBy (us ++ vs) = ⟨(coveredBy us).start, (coveredBy vs).stop⟩ := by
  have hne : us ++ vs ≠ [] := List.append_ne_nil_of_left_ne_nil hus vs
  rw [coveredBy_eq hus, coveredBy_eq hvs, coveredBy_eq hne, List.head_append_of_ne_nil hus,
    List.getLast_append_of_ne_nil hne hvs]

/-- Lexemes can be divided, some of them left out, so that the parts have these spans. -/
inductive Divided : List (Lexeme Token) → List Span → Prop
  | nil : Divided [] []
  | skip {x : Lexeme Token} {ws : List (Lexeme Token)} {spans : List Span} (h : Divided ws spans) :
      Divided (x :: ws) spans
  | part {us ws : List (Lexeme Token)} {spans : List Span} (hne : us ≠ [])
      (h : Divided ws spans) : Divided (us ++ ws) (coveredBy us :: spans)

namespace Divided

variable {spans more : List Span}

/-- Lexemes before the parts may be left out. -/
theorem skipAll (us : List (Lexeme Token)) (h : Divided ws spans) : Divided (us ++ ws) spans := by
  induction us with
  | nil => exact h
  | cons x us ih => exact .skip ih

theorem none (ws : List (Lexeme Token)) : Divided ws [] := by
  have h := skipAll ws .nil
  rwa [List.append_nil] at h

/-- Parts of the front and parts of the back are parts of the whole. -/
theorem append (h : Divided us spans) (hmore : Divided vs more) :
    Divided (us ++ vs) (spans ++ more) := by
  induction h with
  | nil => exact hmore
  | skip _ ih => exact .skip ih
  | part hne _ ih =>
      rw [List.append_assoc]
      exact .part hne ih

theorem whole (hne : ws ≠ []) : Divided ws [coveredBy ws] := by
  have h := Divided.part hne .nil
  rwa [List.append_nil] at h

/-- Every part is covered by some of the lexemes. -/
theorem exists_part (h : Divided ws spans) :
    ∀ s ∈ spans, ∃ us, us ≠ [] ∧ us.Sublist ws ∧ s = coveredBy us := by
  induction h with
  | nil => simp
  | skip _ ih =>
      intro s hs
      obtain ⟨us, hne, hsub, heq⟩ := ih s hs
      exact ⟨us, hne, hsub.cons _, heq⟩
  | part hne _ ih =>
      refine List.forall_mem_cons.2 ⟨⟨_, hne, List.sublist_append_left _ _, rfl⟩, fun s hs => ?_⟩
      obtain ⟨us, hus, hsub, heq⟩ := ih s hs
      exact ⟨us, hus, hsub.trans (List.sublist_append_right _ _), heq⟩

end Divided

/-- The lexemes are those of a part with this span, and of its parts with these spans. -/
structure Fits (ws : List (Lexeme Token)) (outer : Span) (inner : List Span) : Prop where
  ne_nil : ws ≠ []
  outer_eq : outer = coveredBy ws
  divided : Divided ws inner

section Order

variable (hlt : ∀ x ∈ ws, x.span.start < x.span.stop)
  (hordered : ws.Pairwise fun x y => x.span.stop ≤ y.span.start)

include hlt hordered

/-- Lexemes in order lie in the span from the first one to the last one. -/
theorem bounds_coveredBy : ∀ x ∈ ws, (coveredBy ws).start ≤ x.span.start ∧
    x.span.stop ≤ (coveredBy ws).stop := by
  intro x hx
  have hne : ws ≠ [] := List.ne_nil_of_mem hx
  obtain ⟨us, vs, rfl⟩ := List.append_of_mem hx
  obtain ⟨-, hmore, hbefore⟩ := List.pairwise_append.1 hordered
  rw [coveredBy_eq hne]
  constructor
  · cases us with
    | nil => exact Nat.le_refl _
    | cons u us =>
        have hle := hbefore u List.mem_cons_self x List.mem_cons_self
        have hpos := hlt u (by simp)
        exact Nat.le_trans (Nat.le_of_lt hpos) hle
  · rw [List.getLast_append_of_ne_nil hne (List.cons_ne_nil x vs)]
    cases vs with
    | nil => exact Nat.le_refl _
    | cons v vs =>
        rw [List.getLast_cons_cons]
        have hlast := List.getLast_mem (List.cons_ne_nil v vs)
        have hle := (List.pairwise_cons.1 hmore).1 _ hlast
        have hpos := hlt _ (List.mem_append_right us (List.mem_cons_of_mem x hlast))
        exact Nat.le_trans hle (Nat.le_of_lt hpos)

/-- The parts of lexemes in order have spans in order. -/
theorem Divided.ordered {spans : List Span} (h : Divided ws spans) :
    spans.Pairwise fun s t => s.stop ≤ t.start := by
  induction h with
  | nil => exact .nil
  | skip _ ih =>
      exact ih (fun x hx => hlt x (List.mem_cons_of_mem _ hx)) (List.pairwise_cons.1 hordered).2
  | part hne h ih =>
      obtain ⟨-, hmore, hbefore⟩ := List.pairwise_append.1 hordered
      refine .cons (fun s hs => ?_) (ih (fun x hx => hlt x (List.mem_append_right _ hx)) hmore)
      obtain ⟨vs, hvs, hsub, rfl⟩ := h.exists_part s hs
      rw [coveredBy_eq hne, coveredBy_eq hvs]
      exact hbefore _ (List.getLast_mem hne) _ (hsub.subset (List.head_mem hvs))

end Order

/-- Lexemes of a text that are divided into parts have spans inside of each other. -/
theorem Fits.frames (hxs : Token.lexemes text = .ok xs) {outer : Span} {inner : List Span}
    (h : Fits ws outer inner) (hsub : ws.Sublist xs) : Frames text outer inner := by
  obtain ⟨hne, rfl, hdivided⟩ := h
  have htiles := Token.tiles_of_lexemes hxs
  have hlt : ∀ x ∈ ws, x.span.start < x.span.stop := fun x hx =>
    htiles.nonempty x (hsub.subset hx)
  have hordered := htiles.ordered.sublist hsub
  have hmarks : ∀ s ∈ coveredBy ws :: inner, s.Within text ∧ s.start < s.stop := by
    refine List.forall_mem_cons.2 ⟨within_coveredBy hxs hne hsub, fun s hs => ?_⟩
    obtain ⟨us, hus, hpart, rfl⟩ := hdivided.exists_part s hs
    exact within_coveredBy hxs hus (hpart.trans hsub)
  refine ⟨fun s hs => (hmarks s hs).1, fun s hs => (hmarks s hs).2, fun s hs => ?_,
    hdivided.ordered hlt hordered⟩
  obtain ⟨us, hus, hpart, rfl⟩ := hdivided.exists_part s hs
  have hbounds := bounds_coveredBy hlt hordered
  rw [coveredBy_eq hus]
  exact ⟨(hbounds _ (hpart.subset (List.head_mem hus))).1,
    (hbounds _ (hpart.subset (List.getLast_mem hus))).2⟩

theorem Fits.lexeme (x : Lexeme Token) : Fits [x] x.span [] :=
  ⟨List.cons_ne_nil x [], rfl, .none [x]⟩

/-- Of two parts next to each other, the first is a part of both together, and so are the parts of
the second. -/
theorem Fits.beside {s t : Span} {inner more : List Span} (hs : Fits us s inner)
    (ht : Fits vs t more) {parts : List Span} (hparts : Divided vs parts) :
    Fits (us ++ vs) ⟨s.start, t.stop⟩ (s :: parts) := by
  refine ⟨List.append_ne_nil_of_left_ne_nil hs.ne_nil vs, ?_, ?_⟩
  · rw [coveredBy_append hs.ne_nil ht.ne_nil, hs.outer_eq, ht.outer_eq]
  · rw [hs.outer_eq]
    exact .part hs.ne_nil hparts

end InfraGraph.Definition.Grammar
