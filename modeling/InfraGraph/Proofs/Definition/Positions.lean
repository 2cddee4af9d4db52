import InfraGraph.Proofs.Definition.Frames
import InfraGraph.Proofs.Definition.TypeText
import InfraGraph.Proofs.Reading.Consumes

/-!
# Where definitions stand

Every part of a definition keeps the span that it was read from. The span shows the part: it covers
some of the text, the parts of a part stand inside of it and one after the other, and where a part
is written literally, it can be quoted from the text at its span. A reader gives each part the span
from the first to the last of the lexemes that it consumes for it, so this follows the way in which
the readers are put together; what tokens are written like is known from the lexer.

## Main results

* `Literal.Placed`, `Property.Placed`, `ComponentDefinition.Placed`, `EventDefinition.Placed` — what
  the spans of these parts show.
* `PlacesNode`, `PlacesParts` — readers whose results have the spans of what they consume.
* `Definitions.placed_of_read` — the spans of definitions that are read show what they mean.
-/

namespace InfraGraph.Definition

open Reading (Lexeme Reader)
open Reading.Reader (Consumes)
open Text (Frames Span collapse isBlank slice width words wordsFrom)

/-! ## What spans show -/

/-- The literal that a token means alone; a bare word means the string. -/
def Token.literal? : Token → Option Literal
  | mark _ => none
  | word s => some (.string s)
  | string s => some (.string s)
  | int n => some (.int n)
  | float x => some (.float x)
  | bool b => some (.bool b)
  | code body => some (.code body)

/-- What a span of a text covers is a token alone. -/
def Token.Alone (text : List Char) (span : Span) (t : Token) : Prop :=
  lexemes (slice span text) = .ok [⟨t, 0, width (slice span text)⟩]

/-- A key is a token alone. -/
def KeyPlaced (text : List Char) (key : Spanned String) : Prop :=
  ∃ k : MemberKey, k.text = key.node ∧ Token.Alone text key.span k.token

/-- The span of a member's key, and that of its value. -/
def memberSpans (m : Spanned String × Spanned Literal) : List Span := [m.1.span, m.2.span]

/-- The span of a literal of one token covers this token; the spans of items and members stand in
the span of the list or the object. -/
inductive Literal.Placed (text : List Char) : Spanned Literal → Prop
  | scalar {a : Spanned Literal} {t : Token} (hframes : Frames text a.span [])
      (hmeans : t.literal? = some a.node) (halone : t.Alone text a.span) : Placed text a
  | list {span : Span} {items : List (Spanned Literal)}
      (hframes : Frames text span (items.map Spanned.span))
      (hitems : ∀ i ∈ items, Placed text i) : Placed text ⟨span, .list items⟩
  | object {span : Span} {members : List (Spanned String × Spanned Literal)}
      (hframes : Frames text span (members.flatMap memberSpans))
      (hkeys : ∀ m ∈ members, KeyPlaced text m.1)
      (hvalues : ∀ m ∈ members, Placed text m.2) : Placed text ⟨span, .object members⟩

/-- A property covers its keyword and its value. -/
structure Property.Placed (text : List Char) (p : Spanned Property) : Prop where
  frames : Frames text p.span [p.node.key.span, p.node.literal.span]
  key : slice p.node.key.span text = p.node.key.node.text.toList
  literal : Literal.Placed text p.node.literal

/-- A component definition covers its type, which is what its span shows but for runs of blanks, and
its properties. -/
structure ComponentDefinition.Placed (text : List Char) (c : Spanned ComponentDefinition) :
    Prop where
  frames : Frames text c.span (c.node.componentType.span :: c.node.properties.map Spanned.span)
  type : collapse (slice c.node.componentType.span text) = c.node.componentType.node.toList
  properties : ∀ p ∈ c.node.properties, Property.Placed text p

/-- The definition of an event covers its kind and its properties. -/
structure EventDefinition.Placed (text : List Char) (e : Spanned EventDefinition) : Prop where
  frames : Frames text e.span (e.node.kind.span :: e.node.properties.map Spanned.span)
  kind : slice e.node.kind.span text = e.node.kind.node.text.toList
  properties : ∀ p ∈ e.node.properties, Property.Placed text p

/-- The block of defaults covers its properties. -/
structure DefaultsPlaced (text : List Char) (s : Spanned (List (Spanned Property))) : Prop where
  frames : Frames text s.span (s.node.map Spanned.span)
  properties : ∀ p ∈ s.node, Property.Placed text p

namespace Definitions

/-- The spans of the block of defaults, of the components and of the events. -/
def spans (d : Definitions) : List Span :=
  d.defaults.toList.map Spanned.span ++
    (d.components.map Spanned.span ++ d.events.map Spanned.span)

/-- All spans of definitions show what they mean, and the definitions stand one after the other. -/
structure Placed (text : List Char) (d : Definitions) : Prop where
  ordered : d.spans.Pairwise fun s t => s.stop ≤ t.start
  defaults : ∀ s ∈ d.defaults, DefaultsPlaced text s
  components : ∀ c ∈ d.components, ComponentDefinition.Placed text c
  events : ∀ e ∈ d.events, EventDefinition.Placed text e

end Definitions

namespace Grammar

variable {α : Type} {text : List Char} {xs ws us vs : List (Lexeme Token)} {n : Nat}

/-! ## Readers -/

/-- The reader gives a part with the span of the lexemes that it consumes; `inner` are the spans of
its parts, and `Q` holds of it if the lexemes are some of the text. -/
def PlacesNode (xs : List (Lexeme Token)) (p : Reader Token (Spanned α)) (inner : α → List Span)
    (Q : Spanned α → Prop) : Prop :=
  Consumes p fun ws a => Fits ws a.span (inner a.node) ∧ (ws.Sublist xs → Q a)

/-- The reader gives parts with these spans; `Q` holds of what it gives if the lexemes that it
consumes are some of the text. -/
def PlacesParts (xs : List (Lexeme Token)) (p : Reader Token α) (spans : α → List Span)
    (Q : α → Prop) : Prop :=
  Consumes p fun ws a => Divided ws (spans a) ∧ (ws.Sublist xs → Q a)

section Readers

variable {p : Reader Token α} {spans : α → List Span} {Q : α → Prop}

/-- A part with a span of its own is one of the parts of what is around it. -/
theorem PlacesNode.parts {p : Reader Token (Spanned α)} {inner : α → List Span}
    {Q : Spanned α → Prop} (hp : PlacesNode xs p inner Q) :
    PlacesParts xs p (fun a => [a.span]) Q := by
  refine hp.mono fun ws a ⟨hfits, ha⟩ => ⟨?_, ha⟩
  show Divided ws [a.span]
  rw [hfits.outer_eq]
  exact .whole hfits.ne_nil

/-- The spans of parts, each of them alone, are their spans. -/
theorem PlacesParts.nodes {p : Reader Token (List (Spanned α))} {Q : List (Spanned α) → Prop}
    (hp : PlacesParts xs p (fun as => as.flatMap fun a => [a.span]) Q) :
    PlacesParts xs p (fun as => as.map Spanned.span) Q := by
  have hspans : (fun as : List (Spanned α) => as.map Spanned.span) =
      fun as => as.flatMap fun a => [a.span] := funext fun as => List.map_eq_flatMap
  rw [hspans]
  exact hp

/-- The items of a repetition are placed one after the other. -/
theorem PlacesParts.many (hp : PlacesParts xs p spans Q) (n : Nat) :
    PlacesParts xs (Reader.many p n) (fun as => as.flatMap spans) fun as => ∀ a ∈ as, Q a := by
  refine Consumes.many ⟨.nil, by simp⟩ ?_ hp n
  rintro us a vs as ⟨hdivided, ha⟩ ⟨hmore, has⟩
  refine ⟨hdivided.append hmore, fun hsub => List.forall_mem_cons.2 ⟨?_, ?_⟩⟩
  · exact ha ((List.sublist_append_left us vs).trans hsub)
  · exact has ((List.sublist_append_right us vs).trans hsub)

/-- Items with commas between them are placed one after the other. -/
theorem PlacesParts.items (hp : PlacesParts xs p spans Q) (n : Nat) :
    PlacesParts xs (Reader.items p (mark .comma) n) (fun as => as.flatMap spans)
      fun as => ∀ a ∈ as, Q a := by
  have hcomma : Consumes (mark .comma) fun _ _ => True := .lexeme fun _ _ _ => trivial
  refine Consumes.items ⟨.nil, by simp⟩ ?_ ?_ hp hcomma n
  · rintro us a vs as ⟨hdivided, ha⟩ ⟨hmore, has⟩
    refine ⟨hdivided.append hmore, fun hsub => List.forall_mem_cons.2 ⟨?_, ?_⟩⟩
    · exact ha ((List.sublist_append_left us vs).trans hsub)
    · exact has ((List.sublist_append_right us vs).trans hsub)
  · rintro us _ vs as - ⟨hmore, has⟩
    exact ⟨hmore.skipAll us, fun hsub => has ((List.sublist_append_right us vs).trans hsub)⟩

theorem consumes_mark (m : Mark) :
    Consumes (mark m) fun ws span => ∃ x, ws = [x] ∧ span = x.span ∧ x.token = .mark m := by
  refine .lexeme fun x span h => ⟨x, rfl, ?_⟩
  cases ht : x.token with
  | mark k =>
      by_cases hk : k = m
      · simp only [ht, hk, if_true, Reader.Verdict.take.injEq] at h
        exact ⟨h.symm, by rw [hk]⟩
      · simp [ht, hk] at h
  | _ => simp [ht] at h

theorem consumes_theWord (word : String) :
    Consumes (theWord word) fun ws span => ∃ x, ws = [x] ∧ span = x.span := by
  refine .lexeme fun x span h => ⟨x, rfl, ?_⟩
  cases ht : x.token with
  | word s =>
      by_cases hs : s = word
      · simp only [ht, hs, if_true, Reader.Verdict.take.injEq] at h
        exact h.symm
      · simp [ht, hs] at h
  | _ => simp [ht] at h

/-- Marks around parts enclose them. -/
theorem PlacesParts.between (hp : PlacesParts xs p spans Q) (opening closing : Mark) :
    PlacesNode xs (between opening closing p) spans fun s => Q s.node := by
  refine .bind (consumes_mark opening) ?_
  rintro _ _ ⟨x, rfl, rfl, -⟩
  refine .bind hp ?_
  rintro us a ⟨hdivided, ha⟩
  refine .bind (consumes_mark closing) ?_
  rintro _ _ ⟨y, rfl, rfl, -⟩
  have hsplit : [x] ++ (us ++ ([y] ++ [])) = (x :: us) ++ [y] := by simp
  refine .pure ⟨⟨by simp, ?_, ?_⟩, fun hsub => ha ?_⟩
  · rw [hsplit, coveredBy_append (List.cons_ne_nil x us) (List.cons_ne_nil y [])]
    rfl
  · exact .skip (by simpa using hdivided.append (.none [y]))
  · exact ((List.sublist_append_left us _).trans (List.sublist_append_right [x] _)).trans hsub

end Readers

/-! ## Literals -/

section Definitions

variable (hxs : Token.lexemes text = .ok xs)

include hxs

/-- A lexeme of the text makes the same token alone. -/
theorem alone_of_sublist {x : Lexeme Token} (hx : [x].Sublist xs) :
    Token.Alone text x.span x.token :=
  Token.lexemes_slice hxs (List.singleton_sublist.1 hx)

/-- A lexeme of the text covers what its token is written like. -/
theorem written_of_sublist {x : Lexeme Token} (hx : [x].Sublist xs) :
    x.token.Written (slice x.span text) :=
  Token.written_slice hxs (List.singleton_sublist.1 hx)

private theorem places_scalar : PlacesNode xs scalar (fun _ => []) (Literal.Placed text) := by
  refine .lexeme fun x a h => ?_
  have hmeans : a.span = x.span ∧ x.token.literal? = some a.node := by
    cases ht : x.token <;> simp only [ht, Reader.Verdict.take.injEq, reduceCtorEq] at h <;>
      exact ⟨h ▸ rfl, h ▸ rfl⟩
  obtain ⟨hspan, hliteral⟩ := hmeans
  have hfits : Fits [x] a.span [] := hspan ▸ .lexeme x
  refine ⟨hfits, fun hsub => .scalar (hfits.frames hxs hsub) hliteral ?_⟩
  rw [hspan]
  exact alone_of_sublist hxs hsub

private theorem places_list {literal : Reader Token (Spanned Literal)}
    (hliteral : PlacesNode xs literal (fun _ => []) (Literal.Placed text)) :
    PlacesNode xs (list literal n) (fun _ => []) (Literal.Placed text) := by
  refine Consumes.bind_pure ((hliteral.parts.items n).nodes.between _ _)
    fun ws s ⟨hfits, hitems⟩ => ?_
  refine ⟨⟨hfits.ne_nil, hfits.outer_eq, .none ws⟩, fun hsub => ?_⟩
  exact .list (hfits.frames hxs hsub) (hitems hsub)

private theorem places_memberKey : PlacesNode xs memberKey (fun _ => []) (KeyPlaced text) := by
  refine .lexeme fun x a h => ?_
  have hmeans : a.span = x.span ∧ ∃ k : MemberKey, k.text = a.node ∧ x.token = k.token := by
    cases ht : x.token with
    | word s =>
        simp only [ht, Reader.Verdict.take.injEq] at h
        exact ⟨h ▸ rfl, .word s, h ▸ rfl, rfl⟩
    | string s =>
        simp only [ht, Reader.Verdict.take.injEq] at h
        exact ⟨h ▸ rfl, .string s, h ▸ rfl, rfl⟩
    | _ => simp [ht] at h
  obtain ⟨hspan, k, hk, htoken⟩ := hmeans
  refine ⟨hspan ▸ .lexeme x, fun hsub => ⟨k, hk, ?_⟩⟩
  rw [hspan, ← htoken]
  exact alone_of_sublist hxs hsub

theorem places_member {literal : Reader Token (Spanned Literal)}
    (hliteral : PlacesNode xs literal (fun _ => []) (Literal.Placed text)) :
    PlacesParts xs (member literal) memberSpans
      fun m => KeyPlaced text m.1 ∧ Literal.Placed text m.2 := by
  refine .bind (places_memberKey hxs) fun us key ⟨hkeyFits, hkey⟩ => ?_
  refine .bind_pure hliteral fun vs value ⟨hvalueFits, hvalue⟩ => ⟨?_, fun hsub => ⟨?_, ?_⟩⟩
  · rw [memberSpans, hkeyFits.outer_eq, hvalueFits.outer_eq]
    exact .part hkeyFits.ne_nil (.whole hvalueFits.ne_nil)
  · exact hkey ((List.sublist_append_left us vs).trans hsub)
  · exact hvalue ((List.sublist_append_right us vs).trans hsub)

private theorem places_object {literal : Reader Token (Spanned Literal)}
    (hliteral : PlacesNode xs literal (fun _ => []) (Literal.Placed text)) :
    PlacesNode xs (object literal n) (fun _ => []) (Literal.Placed text) := by
  refine Consumes.bind_pure (((places_member hxs hliteral).items n).between _ _)
    fun ws s ⟨hfits, hmembers⟩ => ?_
  refine ⟨⟨hfits.ne_nil, hfits.outer_eq, .none ws⟩, fun hsub => ?_⟩
  exact .object (hfits.frames hxs hsub) (fun m hm => (hmembers hsub m hm).1)
    fun m hm => (hmembers hsub m hm).2

/-- Literals are placed, with all that is inside of them. -/
theorem places_literal (n : Nat) :
    PlacesNode xs (literal n) (fun _ => []) (Literal.Placed text) := by
  induction n with
  | zero => exact .never
  | succ n ih =>
      exact .orElse (places_scalar hxs) (.orElse (places_list hxs ih) (places_object hxs ih))

/-! ## Properties -/

variable {context : Context}

theorem places_keyword : PlacesNode xs (keyword context) (fun _ => [])
    fun key => slice key.span text = key.node.text.toList := by
  refine .lexeme fun x a h => ?_
  cases ht : x.token with
  | word s =>
      cases hk : Keyword.ofText? s with
      | none => simp [ht, hk] at h
      | some k =>
          by_cases hallowed : context.allows k = true
          · simp only [ht, hk, hallowed, if_true, Reader.Verdict.take.injEq] at h
            subst h
            refine ⟨.lexeme x, fun hsub => ?_⟩
            have hwritten := written_of_sublist hxs hsub
            rw [ht, ← Keyword.ofText?_eq_some_iff.1 hk] at hwritten
            exact hwritten.1
          · simp [ht, hk, hallowed] at h
  | _ => simp [ht] at h

private theorem places_property :
    PlacesParts xs (property context n) (fun p => [p.span]) (Property.Placed text) := by
  refine .bind (places_keyword hxs) fun us key ⟨hkeyFits, hkey⟩ => ?_
  refine .bind (places_literal hxs n) fun vs value ⟨hvalueFits, hvalue⟩ => ?_
  have hcomma : Consumes (Reader.optional (mark .comma)) fun _ _ => True :=
    .optional (L := fun _ _ => True) (.lexeme fun _ _ _ => trivial) (fun _ _ _ => trivial) trivial
  refine .bind_pure hcomma fun ws _ _ => ?_
  have hfits : Fits (us ++ vs) ⟨key.span.start, value.span.stop⟩ [key.span, value.span] := by
    refine hkeyFits.beside hvalueFits ?_
    rw [hvalueFits.outer_eq]
    exact .whole hvalueFits.ne_nil
  have hwhole : us ++ (vs ++ ws) = (us ++ vs) ++ ws := (List.append_assoc us vs ws).symm
  refine ⟨?_, fun hsub => ?_⟩
  · rw [hwhole]
    show Divided _ ([⟨key.span.start, value.span.stop⟩] ++ [])
    rw [hfits.outer_eq]
    exact (Divided.whole hfits.ne_nil).append (.none ws)
  · rw [hwhole] at hsub
    have hboth := (List.sublist_append_left (us ++ vs) ws).trans hsub
    exact ⟨hfits.frames hxs hboth, hkey ((List.sublist_append_left us vs).trans hboth),
      hvalue ((List.sublist_append_right us vs).trans hboth)⟩

private theorem places_properties : PlacesParts xs (properties context n)
    (fun ps => ps.map Spanned.span) fun ps => ∀ p ∈ ps, Property.Placed text p :=
  ((places_property hxs).many n).nodes

private theorem places_defaults : PlacesNode xs (defaults n) (fun ps => ps.map Spanned.span)
    (DefaultsPlaced text) := by
  refine .bind (consumes_theWord "defaults") ?_
  rintro _ _ ⟨x, rfl, rfl⟩
  refine .bind_pure ((places_properties hxs).between _ _) fun ws s ⟨hfits, hs⟩ => ?_
  have hboth := (Fits.lexeme x).beside hfits hfits.divided
  have hwhole : Fits ([x] ++ ws) ⟨x.span.start, s.span.stop⟩ (s.node.map Spanned.span) :=
    ⟨hboth.ne_nil, hboth.outer_eq, .skip hfits.divided⟩
  refine ⟨hwhole, fun hsub => ⟨hwhole.frames hxs hsub, hs ?_⟩⟩
  exact (List.sublist_append_right [x] ws).trans hsub

/-! ## Component types -/

omit hxs in
private theorem consumes_anyWord : Consumes anyWord fun ws span =>
    ∃ x, ws = [x] ∧ span = x.span ∧ ∃ part : TypePart, x.token = part.token := by
  refine .lexeme fun x span h => ?_
  cases ht : x.token with
  | word s =>
      simp only [ht, Reader.Verdict.take.injEq] at h
      exact ⟨x, rfl, h.symm, .word s, ht⟩
  | _ => simp [ht] at h

omit hxs in
/-- A component type fits its lexemes, and its text is made from what they cover. -/
theorem consumes_componentType : Consumes (componentType text n) fun ws type =>
    Fits ws type.span [] ∧ type.node = typeText text type.span ∧
      ∀ x ∈ ws, ∃ part : TypePart, x.token = part.token := by
  have hpart : Consumes (mark .dot <|> anyWord) fun ws span =>
      ∃ x, ws = [x] ∧ span = x.span ∧ ∃ part : TypePart, x.token = part.token :=
    .orElse ((consumes_mark .dot).mono fun ws span ⟨x, hws, hspan, hx⟩ => ⟨x, hws, hspan, .dot, hx⟩)
      consumes_anyWord
  have hmore : Consumes (Reader.many (mark .dot <|> anyWord) n) fun ws spans =>
      spans = ws.map Lexeme.span ∧ ∀ x ∈ ws, ∃ part : TypePart, x.token = part.token := by
    refine hpart.many ⟨rfl, by simp⟩ ?_ n
    rintro _ _ vs _ ⟨x, rfl, rfl, hx⟩ ⟨rfl, hvs⟩
    exact ⟨rfl, List.forall_mem_cons.2 ⟨hx, hvs⟩⟩
  refine .bind consumes_anyWord ?_
  rintro _ _ ⟨x, rfl, rfl, hx⟩
  refine .bind_pure hmore ?_
  rintro vs _ ⟨rfl, hvs⟩
  exact ⟨⟨List.cons_ne_nil x vs, rfl, .none _⟩, rfl, List.forall_mem_cons.2 ⟨hx, hvs⟩⟩

/-- A token of a component type is written without blanks. -/
theorem isBlank_of_typePart {x : Lexeme Token} (hx : x ∈ xs) {part : TypePart}
    (htoken : x.token = part.token) :
    slice x.span text ≠ [] ∧ ∀ c ∈ slice x.span text, isBlank c = false := by
  have hwritten := Token.written_slice hxs hx
  rw [htoken] at hwritten
  constructor
  · intro hnil
    have halone := Token.lexemes_slice hxs hx
    rw [hnil] at halone
    cases halone
  · cases part with
    | dot =>
        have hdot : slice x.span text = ['.'] := hwritten
        rw [hdot]
        exact List.forall_mem_singleton.2 rfl
    | word s => exact fun c hc => isBlank_of_continuesWord (hwritten.2 c hc)

/-- What the tokens of a component type cover neither begins nor ends with a blank. -/
theorem isBlank_ends (hne : ws ≠ []) (hsub : ws.Sublist xs)
    (hparts : ∀ x ∈ ws, ∃ part : TypePart, x.token = part.token) :
    (∀ c, (slice (coveredBy ws) text).head? = some c → isBlank c = false) ∧
      ∀ c, (slice (coveredBy ws) text).getLast? = some c → isBlank c = false := by
  have htiles := Token.tiles_of_lexemes hxs
  have hbounds := bounds_coveredBy (fun x hx => htiles.nonempty x (hsub.subset hx))
    (htiles.ordered.sublist hsub)
  have hwhole := (within_coveredBy hxs hne hsub).1
  have hcovered := coveredBy_eq hne
  constructor
  · have hx := List.head_mem hne
    obtain ⟨part, htoken⟩ := hparts _ hx
    obtain ⟨htext, hblank⟩ := isBlank_of_typePart hxs (hsub.subset hx) htoken
    have hwithin := htiles.within _ (hsub.subset hx)
    have hbehind : Span.Within ⟨(ws.head hne).span.stop, (coveredBy ws).stop⟩ text :=
      ⟨hwithin.stop, hwhole.stop, (hbounds _ hx).2⟩
    have hsplit := Text.slice_beside hwithin hbehind
    have hstart : coveredBy ws = ⟨(ws.head hne).span.start, (coveredBy ws).stop⟩ := by
      rw [hcovered]
    intro c hc
    rw [hstart, hsplit, List.head?_append_of_ne_nil _ htext] at hc
    exact hblank c (List.mem_of_mem_head? hc)
  · have hx := List.getLast_mem hne
    obtain ⟨part, htoken⟩ := hparts _ hx
    obtain ⟨htext, hblank⟩ := isBlank_of_typePart hxs (hsub.subset hx) htoken
    have hwithin := htiles.within _ (hsub.subset hx)
    have hbefore : Span.Within ⟨(coveredBy ws).start, (ws.getLast hne).span.start⟩ text :=
      ⟨hwhole.start, hwithin.start, (hbounds _ hx).1⟩
    have hsplit := Text.slice_beside hbefore hwithin
    have hstop : coveredBy ws = ⟨(coveredBy ws).start, (ws.getLast hne).span.stop⟩ := by
      rw [hcovered]
    intro c hc
    rw [hstop, hsplit, List.getLast?_append_of_ne_nil _ htext] at hc
    exact hblank c (List.mem_of_getLast? hc)

private theorem places_componentType : PlacesNode xs (componentType text n) (fun _ => [])
    fun type => collapse (slice type.span text) = type.node.toList := by
  refine consumes_componentType.mono fun ws type ⟨hfits, htype, hparts⟩ => ⟨hfits, fun hsub => ?_⟩
  obtain ⟨hfirst, hlast⟩ := isBlank_ends hxs hfits.ne_nil hsub hparts
  rw [htype, typeText, String.toList_ofList, hfits.outer_eq, Text.intercalate_words hfirst hlast]

/-! ## Components and events -/

private theorem places_component : PlacesNode xs (component text n)
    (fun c => c.componentType.span :: c.properties.map Spanned.span)
    (ComponentDefinition.Placed text) := by
  refine .bind (places_componentType hxs) fun us type ⟨htypeFits, htype⟩ => ?_
  refine .bind_pure ((places_properties hxs).between _ _) fun vs s ⟨hfits, hs⟩ => ?_
  have hboth := htypeFits.beside hfits hfits.divided
  exact ⟨hboth, fun hsub => ⟨hboth.frames hxs hsub,
    htype ((List.sublist_append_left us vs).trans hsub),
    hs ((List.sublist_append_right us vs).trans hsub)⟩⟩

private theorem places_eventKind : PlacesNode xs eventKind (fun _ => [])
    fun kind => slice kind.span text = kind.node.text.toList := by
  refine .lexeme fun x a h => ?_
  cases ht : x.token with
  | word s =>
      cases hk : EventKind.ofText? s with
      | none => simp [ht, hk] at h
      | some k =>
          simp only [ht, hk, Reader.Verdict.take.injEq] at h
          subst h
          refine ⟨.lexeme x, fun hsub => ?_⟩
          have hwritten := written_of_sublist hxs hsub
          rw [ht, ← EventKind.ofText?_eq_some_iff.1 hk] at hwritten
          exact hwritten.1
  | _ => simp [ht] at h

private theorem places_event : PlacesNode xs (event n)
    (fun e => e.kind.span :: e.properties.map Spanned.span) (EventDefinition.Placed text) := by
  refine .bind (places_eventKind hxs) fun us kind ⟨hkindFits, hkind⟩ => ?_
  refine .bind_pure ((places_properties hxs).between _ _) fun vs s ⟨hfits, hs⟩ => ?_
  have hboth := hkindFits.beside hfits hfits.divided
  exact ⟨hboth, fun hsub => ⟨hboth.frames hxs hsub,
    hkind ((List.sublist_append_left us vs).trans hsub),
    hs ((List.sublist_append_right us vs).trans hsub)⟩⟩

/-! ## Whole texts -/

private theorem places_components :
    PlacesParts xs (components text n) (fun cs => cs.map Spanned.span)
    fun cs => ∀ c ∈ cs, ComponentDefinition.Placed text c := by
  refine .bind (consumes_theWord "components") ?_
  rintro _ _ ⟨x, rfl, rfl⟩
  refine .bind_pure (((places_component hxs).parts.many n).nodes.between _ _)
    fun ws s ⟨hfits, hs⟩ => ⟨.skip hfits.divided, fun hsub => hs ?_⟩
  exact (List.sublist_append_right [x] ws).trans hsub

private theorem places_events : PlacesParts xs (events n) (fun es => es.map Spanned.span)
    fun es => ∀ e ∈ es, EventDefinition.Placed text e := by
  refine .bind (consumes_theWord "events") ?_
  rintro _ _ ⟨x, rfl, rfl⟩
  refine .bind_pure (((places_event hxs).parts.many n).nodes.between _ _)
    fun ws s ⟨hfits, hs⟩ => ⟨.skip hfits.divided, fun hsub => hs ?_⟩
  exact (List.sublist_append_right [x] ws).trans hsub

private theorem places_definitions : PlacesParts xs (definitions text n) Definitions.spans
    (Definitions.Placed text) := by
  have hdefaults : PlacesParts xs (Reader.optional (defaults n))
      (fun o => o.toList.map Spanned.span) fun o => ∀ s ∈ o, DefaultsPlaced text s :=
    (places_defaults hxs).parts.optional
      (fun ws s ⟨hdivided, hs⟩ => ⟨hdivided, fun hsub t ht => by
        obtain rfl := Option.some.inj ht
        exact hs hsub⟩)
      ⟨.nil, by simp⟩
  have hevents : PlacesParts xs (Reader.optional (events n))
      (fun o => (o.getD []).map Spanned.span)
      fun o => ∀ e ∈ o.getD [], EventDefinition.Placed text e :=
    (places_events hxs).optional (fun _ _ h => h) ⟨.nil, by simp⟩
  refine .bind hdefaults fun us someDefaults ⟨hdefaultsDivided, hdefaults⟩ => ?_
  refine .bind (places_components hxs) fun vs cs ⟨hcsDivided, hcs⟩ => ?_
  refine .bind_pure hevents fun ws es ⟨hesDivided, hes⟩ => ?_
  have hdivided := hdefaultsDivided.append (hcsDivided.append hesDivided)
  refine ⟨hdivided, fun hsub => ⟨?_, ?_, ?_, ?_⟩⟩
  · have htiles := Token.tiles_of_lexemes hxs
    exact hdivided.ordered (fun x hx => htiles.nonempty x (hsub.subset hx))
      (htiles.ordered.sublist hsub)
  · exact hdefaults ((List.sublist_append_left us _).trans hsub)
  · exact hcs (((List.sublist_append_left vs ws).trans (List.sublist_append_right us _)).trans hsub)
  · exact hes
      (((List.sublist_append_right vs ws).trans (List.sublist_append_right us _)).trans hsub)

end Definitions

end Grammar

namespace Definitions

/-- The spans of definitions that are read from a text show what they mean. -/
theorem placed_of_read {text : List Char} {d : Definitions} (hd : read text = .ok d) :
    d.Placed text := by
  obtain ⟨xs, hxs⟩ := exists_lexemes_of_read hd
  rw [read, hxs] at hd
  have hresult := Reader.readAll_eq_ok_iff.1 hd
  obtain ⟨ws, hws, -, hplaced⟩ := Grammar.places_definitions hxs xs d [] hresult
  rw [List.append_nil] at hws
  exact hplaced (hws ▸ List.Sublist.refl ws)

/-- A component type over two lines, with an object as a property. -/
def nestedText : List Char :=
  "components \x7b aws.ec2\n node(name \"é\", data \x7bk [1, x]\x7d) \x7d".toList

theorem placed_of_read_nested : ∃ d, read nestedText = .ok d ∧ d.spans = [⟨13, 54⟩] ∧
    d.types = ["aws.ec2 node"] ∧ d.Placed nestedText := by
  have hread : (read nestedText).toOption.map (fun d => (d.spans, d.types)) =
      some ([⟨13, 54⟩], ["aws.ec2 node"]) := by
    decide +kernel
  obtain ⟨d, hd, hparts⟩ := exists_read_of_map hread
  exact ⟨d, hd, congrArg Prod.fst hparts, congrArg Prod.snd hparts, placed_of_read hd⟩

end Definitions

end InfraGraph.Definition
