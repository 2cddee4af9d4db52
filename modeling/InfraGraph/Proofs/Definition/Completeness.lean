import InfraGraph.Definition.Grammar
import InfraGraph.Proofs.Definition.Tree
import InfraGraph.Proofs.Reading.Takes

/-!
# What the grammar of definitions derives is read

For every rule of the grammar there is a reader. It takes the tokens of each tree of that rule and
makes of them what the tree means. The readers that repeat or nest do so as long as their bound
lasts, so the tokens of the tree and all that follows have to fit into the bound.

The text of a component type is no matter of tokens: it is cut out of the text between the first and
the last lexeme of the type. So the readers of components are followed on the lexemes themselves.

## Main results

* `takes_literal`, `takes_property`, `takes_event` — the trees of these rules are read.
* `result_component` — so are components, with the texts of their types.
* `result_definitions` — so are whole texts.
-/

namespace InfraGraph.Definition.Grammar

open Reading (Reader Lexeme moreTokens locate map_eq_map_of_forall₂)
open Text (Span)
open Reading.Reader (Takes Refuses result)

variable {α : Type} {n : Nat} {ts : List Token} {rest : List (Lexeme Token)}

/-! ## Marks and words -/

private theorem takes_mark (m : Mark) : Takes (mark m) [.mark m] (fun _ => True) rest :=
  .lexeme fun x hx => ⟨x.span, by simp [hx], trivial⟩

private theorem refuses_mark {m : Mark} {t : Token} (ht : t ≠ .mark m) :
    Refuses (mark m) (t :: ts) rest := by
  refine .lexeme fun x hx s => ?_
  cases t with
  | mark k =>
      have hk : k ≠ m := fun h => ht (congrArg Token.mark h)
      simp [hx, hk]
  | _ => simp [hx]

private theorem takes_theWord (text : String) :
    Takes (theWord text) [.word text] (fun _ => True) rest :=
  .lexeme fun x hx => ⟨x.span, by simp [hx], trivial⟩

private theorem refuses_theWord {text word : String} (h : word ≠ text) :
    Refuses (theWord text) (.word word :: ts) rest :=
  .lexeme fun x hx s => by simp [hx, h]

private theorem result_theWord {text : String} {x : Lexeme Token} (hx : x.token = .word text) :
    result (theWord text) (x :: rest) = some (x.span, rest) := by
  simp [theWord, hx]

private theorem result_mark {m : Mark} {x : Lexeme Token} (hx : x.token = .mark m) :
    result (mark m) (x :: rest) = some (x.span, rest) := by
  simp [mark, hx]

private theorem result_between {p : Reader Token α} {opening closing : Mark} {x y : Lexeme Token}
    {ws : List (Lexeme Token)} {a : α} (hx : x.token = .mark opening)
    (hy : y.token = .mark closing) (hp : result p (ws ++ y :: rest) = some (a, y :: rest)) :
    result (between opening closing p) (x :: (ws ++ y :: rest)) =
      some (⟨⟨x.span.start, y.span.stop⟩, a⟩, rest) := by
  rw [between, Reader.result_bind, result_mark hx, Option.bind_some, Reader.result_bind, hp,
    Option.bind_some, Reader.result_bind, result_mark hy]
  rfl

/-- What stands between two marks, with the lexemes of these. -/
theorem exists_block {opening closing : Mark} {ws : List (Lexeme Token)}
    (hws : ws.map Lexeme.token = [.mark opening] ++ (ts ++ [.mark closing])) :
    ∃ x body y, ws = x :: (body ++ [y]) ∧ x.token = .mark opening ∧
      body.map Lexeme.token = ts ∧ y.token = .mark closing := by
  rw [List.singleton_append] at hws
  obtain ⟨x, inner, rfl, hx, hinner⟩ := List.map_eq_cons_iff.1 hws
  obtain ⟨body, last, rfl, hbody, hlast⟩ := List.map_eq_append_iff.1 hinner
  obtain ⟨y, none, rfl, hy, hnone⟩ := List.map_eq_cons_iff.1 hlast
  obtain rfl := List.map_eq_nil_iff.1 hnone
  exact ⟨x, body, y, rfl, hx, hbody, hy⟩

private theorem takes_between {p : Reader Token α} {opening closing : Mark} {P : α → Prop}
    (hp : ∀ x : Lexeme Token, x.token = .mark closing → Takes p ts P (x :: rest)) :
    Takes (between opening closing p) ([.mark opening] ++ (ts ++ [.mark closing]))
      (fun s => P s.node) rest := by
  intro ws hws
  obtain ⟨x, body, y, rfl, hx, hbody, hy⟩ := exists_block hws
  obtain ⟨a, hresult, ha⟩ := hp y hy body hbody
  refine ⟨⟨⟨x.span.start, y.span.stop⟩, a⟩, ?_, ha⟩
  rw [List.cons_append, List.append_assoc, List.singleton_append]
  exact result_between hx hy hresult

/-! ## Literals -/

/-- A literal is a scalar, a list or an object. -/
theorem literal_succ (n : Nat) :
    literal (n + 1) = (scalar <|> list (literal n) n <|> object (literal n) n) := rfl

private theorem takes_literal_of_scalar {t : Token} {l : Literal}
    (hscalar : ∀ span, result scalar (⟨t, span⟩ :: rest) = some (⟨span, l⟩, rest))
    (hplace : l.unplaced = l) (hn : [t].length + rest.length ≤ n) :
    Takes (literal n) [t] (fun s => s.node.unplaced = l) rest := by
  obtain ⟨n, rfl⟩ : ∃ m, n = m + 1 := ⟨n - 1, by simp at hn; omega⟩
  rw [literal_succ]
  refine Takes.orElse_left fun ws hws => ?_
  obtain ⟨⟨token, span⟩, more, rfl, rfl, hmore⟩ := List.map_eq_cons_iff.1 hws
  rw [List.map_eq_nil_iff.1 hmore]
  exact ⟨⟨span, l⟩, hscalar span, hplace⟩

private theorem refuses_scalar (m : Mark) : Refuses scalar (.mark m :: ts) rest :=
  .lexeme fun x hx s => by simp [hx]

private theorem refuses_memberKey (m : Mark) : Refuses memberKey (.mark m :: ts) rest :=
  .lexeme fun x hx s => by simp [hx]

private theorem refuses_list {m : Mark} (hbracket : m ≠ .bracketOpen) :
    Refuses (list (literal n) n) (.mark m :: ts) rest :=
  .bind (.bind (refuses_mark (by simpa using hbracket)))

private theorem refuses_object {m : Mark} (hbrace : m ≠ .braceOpen) :
    Refuses (object (literal n) n) (.mark m :: ts) rest :=
  .bind (.bind (refuses_mark (by simpa using hbrace)))

/-- No literal begins with a mark but an opening one. -/
theorem refuses_literal {m : Mark} (hbracket : m ≠ .bracketOpen) (hbrace : m ≠ .braceOpen) :
    Refuses (literal n) (.mark m :: ts) rest := by
  cases n with
  | zero => exact fun _ _ => rfl
  | succ n =>
      rw [literal_succ]
      exact .orElse (refuses_scalar m) (.orElse (refuses_list hbracket) (refuses_object hbrace))

section Bracketed

variable {ι : Type} {item : Reader Token α} {R : ι → α → Prop}
  {opening closing : Mark}

private theorem takes_bracketed_nil (hend : ∀ rest, Refuses item [.mark closing] rest) :
    Takes (between opening closing (Reader.items item (mark .comma) n))
      [.mark opening, .mark closing] (fun s => s.node = []) rest := by
  have hitems : ∀ x : Lexeme Token, x.token = .mark closing →
      Takes (Reader.items item (mark .comma) n) [] (fun as => as = []) (x :: rest) :=
    fun x hx => .items_nil (Refuses.cons (by rw [hx]; exact hend rest))
  exact takes_between hitems

/-- Between two marks stand a first item and further ones, each behind a comma. -/
theorem takes_bracketed (tokens : ι → List Token) {i : ι} {more : List ι} {trailing : Bool}
    (hclosing : closing ≠ .comma)
    (hend : ∀ rest, Refuses item [.mark closing] rest)
    (hitem : ∀ j ∈ i :: more, ∀ rest : List (Lexeme Token),
      (tokens j).length + rest.length ≤ n → Takes item (tokens j) (R j) rest)
    (hn : (tokens i ++ moreTokens (.mark .comma) tokens more trailing).length + rest.length < n) :
    Takes (between opening closing (Reader.items item (mark .comma) n))
      ([.mark opening] ++ ((tokens i ++ moreTokens (.mark .comma) tokens more trailing) ++
        [.mark closing])) (fun s => List.Forall₂ R (i :: more) s.node) rest := by
  refine takes_between fun x hx => ?_
  have hstop : Refuses (mark .comma) [x.token] rest := by
    rw [hx]
    exact refuses_mark (by simpa using hclosing)
  have hclose : Refuses item [x.token] rest := by
    rw [hx]
    exact hend rest
  have hmore := Reading.length_le_length_moreTokens tokens (.mark .comma) more trailing
  exact Takes.items_cons tokens (fun _ => True) n (fun _ => takes_mark .comma)
    (fun j hj rest' hlength _ => hitem j hj rest' hlength) (fun _ _ _ => trivial) trivial
    hstop.cons hclose.cons (by rw [List.length_cons]; omega)
    (by rw [List.length_append] at hn; omega)

end Bracketed

private theorem unplaced_items {vs : List ValueTree} {as : List (Spanned Literal)}
    (h : List.Forall₂ (fun v a => a.node.unplaced = ValueTree.literal v) vs as) :
    unplacedItems as = ValueTree.itemLiterals vs := by
  rw [unplacedItems_eq_map, ValueTree.itemLiterals_eq_map]
  exact map_eq_map_of_forall₂ (h.imp fun v a ha => congrArg nowhere ha)

/-- A member is read as it is meant. -/
def MemberMeans (m : MemberKey × ValueTree) (a : Spanned String × Spanned Literal) : Prop :=
  a.1.node = m.1.text ∧ a.2.node.unplaced = m.2.literal

private theorem unplaced_members {ms : List (MemberKey × ValueTree)}
    {as : List (Spanned String × Spanned Literal)} (h : List.Forall₂ MemberMeans ms as) :
    unplacedMembers as = ValueTree.memberLiterals ms := by
  rw [unplacedMembers_eq_map, ValueTree.memberLiterals_eq_map]
  refine map_eq_map_of_forall₂ (h.imp fun m a ha => ?_)
  rw [ha.1, ha.2]
  rfl

private theorem takes_member {m : MemberKey × ValueTree}
    (hvalue : Takes (literal n) m.2.tokens (fun a => a.node.unplaced = m.2.literal) rest) :
    Takes (member (literal n)) (ValueTree.tokensOfMember m) (MemberMeans m) rest := by
  obtain ⟨key, v⟩ := m
  have hkey : ∀ rest, Takes memberKey [key.token] (fun a => a.node = key.text) rest := by
    intro rest
    cases key with
    | word text => exact .lexeme fun x hx => ⟨⟨x.span, text⟩, by simp [hx, MemberKey.token], rfl⟩
    | string text =>
        exact .lexeme fun x hx => ⟨⟨x.span, text⟩, by simp [hx, MemberKey.token], rfl⟩
  exact Takes.bind_cons hkey fun a ha =>
    hvalue.bind_pure fun b hb => ⟨ha, hb⟩

private theorem refuses_member (m : Mark) : Refuses (member (literal n)) (.mark m :: ts) rest :=
  .bind (refuses_memberKey m)

/-- The bound is not used up yet where a value has to fit into it. -/
theorem exists_succ {v : ValueTree} (hn : v.tokens.length + rest.length ≤ n) :
    ∃ m, n = m + 1 := by
  have hne : v.tokens ≠ [] := by cases v <;> simp [ValueTree.tokens]
  have hlength := List.length_pos_iff.2 hne
  exact ⟨n - 1, by omega⟩

/-- A literal is read from what is derived for it. -/
theorem takes_literal (v : ValueTree) (hn : v.tokens.length + rest.length ≤ n) :
    Takes (literal n) v.tokens (fun l => l.node.unplaced = v.literal) rest := by
  induction v generalizing n rest with
  | string text => exact takes_literal_of_scalar (fun _ => rfl) rfl hn
  | word text => exact takes_literal_of_scalar (fun _ => rfl) rfl hn
  | int n => exact takes_literal_of_scalar (fun _ => rfl) rfl hn
  | float y => exact takes_literal_of_scalar (fun _ => rfl) rfl hn
  | bool b => exact takes_literal_of_scalar (fun _ => rfl) rfl hn
  | code body => exact takes_literal_of_scalar (fun _ => rfl) rfl hn
  | emptyList =>
      obtain ⟨n, rfl⟩ := exists_succ hn
      rw [literal_succ]
      refine .orElse_right (refuses_scalar _) (.orElse_left ?_)
      refine (takes_bracketed_nil fun _ => refuses_literal (by simp) (by simp)).bind_pure
        fun s hs => ?_
      dsimp only
      rw [hs]
      rfl
  | emptyObject =>
      obtain ⟨n, rfl⟩ := exists_succ hn
      rw [literal_succ]
      refine .orElse_right (refuses_scalar _) (.orElse_right (refuses_list (by simp)) ?_)
      refine (takes_bracketed_nil fun _ => refuses_member _).bind_pure fun s hs => ?_
      dsimp only
      rw [hs]
      rfl
  | list first more trailing hfirst hmore =>
      obtain ⟨n, rfl⟩ := exists_succ hn
      rw [ValueTree.tokens_list] at hn ⊢
      rw [literal_succ]
      refine .orElse_right (refuses_scalar _) (.orElse_left ?_)
      refine (takes_bracketed ValueTree.tokens
        (R := fun v a => a.node.unplaced = ValueTree.literal v) (by simp)
        (fun _ => refuses_literal (by simp) (by simp)) (fun v hv rest' hlength => ?_)
        ?_).bind_pure fun s hs => ?_
      · rcases List.mem_cons.1 hv with rfl | hv
        · exact hfirst hlength
        · exact hmore v hv hlength
      · simp only [List.length_append, List.length_cons, List.length_nil] at hn ⊢
        omega
      · change Literal.list (unplacedItems s.node) = ValueTree.literal (.list first more trailing)
        rw [unplaced_items hs]
        rfl
  | object key first more trailing hfirst hmore =>
      obtain ⟨n, rfl⟩ := exists_succ hn
      rw [ValueTree.tokens_object] at hn ⊢
      rw [literal_succ]
      refine .orElse_right (refuses_scalar _) (.orElse_right (refuses_list (by simp)) ?_)
      refine (takes_bracketed ValueTree.tokensOfMember (R := MemberMeans) (by simp)
        (fun _ => refuses_member _) (fun m hm rest' hlength => takes_member ?_)
        ?_).bind_pure fun s hs => ?_
      · have hvalue : m.2.tokens.length + rest'.length ≤ n := by
          rw [ValueTree.tokensOfMember, List.length_cons] at hlength
          omega
        rcases List.mem_cons.1 hm with rfl | hm
        · exact hfirst hvalue
        · exact hmore m hm hvalue
      · simp only [List.length_append, List.length_cons, List.length_nil] at hn ⊢
        omega
      · change Literal.object (unplacedMembers s.node) =
          ValueTree.literal (.object key first more trailing)
        rw [unplaced_members hs]
        rfl

/-! ## Properties -/

/-- No comma follows. -/
def NoCommaNext (rest : List (Lexeme Token)) : Prop :=
  ∀ x more, rest = x :: more → x.token ≠ .mark .comma

private theorem result_mark_eq_none {m : Mark}
    (hrest : ∀ x more, rest = x :: more → x.token ≠ .mark m) :
    result (mark m) rest = none := by
  cases rest with
  | nil => rfl
  | cons x more => exact (refuses_mark (hrest x more rfl)).cons

variable {context : Context}

private theorem takes_keyword {k : Keyword} (hk : context.allows k = true) :
    Takes (keyword context) [.word k.text] (fun s => s.node = k) rest :=
  .lexeme fun x hx => ⟨⟨x.span, k⟩, by simp [hx, Keyword.ofText?_text, hk], rfl⟩

private theorem refuses_keyword (m : Mark) : Refuses (keyword context) (.mark m :: ts) rest :=
  .lexeme fun x hx s => by simp [hx]

/-- A property is read from what is derived for it. -/
theorem takes_property (p : PropertyTree context) (hn : p.tokens.length + rest.length ≤ n)
    (hrest : NoCommaNext rest) :
    Takes (property context n) p.tokens (fun s => s.node.unplaced = p.property) rest := by
  rw [PropertyTree.tokens, List.length_cons, List.length_append] at hn
  refine Takes.bind_cons (fun _ => takes_keyword p.allowed) fun key hkey => ?_
  refine Takes.bind (P := fun l => l.node.unplaced = p.value.literal) (fun ws hws => ?_)
    fun value hvalue => ?_
  · have hlength := congrArg List.length hws
    rw [List.length_map] at hlength
    exact takes_literal p.value (by rw [List.length_append]; omega)
  · have hcomma : Takes (Reader.optional (mark .comma)) (if p.comma then [.mark .comma] else [])
        (fun _ => True) rest := by
      cases p.comma with
      | false => exact (Takes.optional_none (result_mark_eq_none hrest)).mono fun _ _ => trivial
      | true => exact (takes_mark .comma).optional_some.mono fun _ _ => trivial
    refine hcomma.bind_pure fun _ _ => ?_
    rw [Property.unplaced, PropertyTree.property, hkey, hvalue]

private theorem takes_properties {ps : List (PropertyTree context)} {m : Mark} {x : Lexeme Token}
    (hm : m ≠ .comma) (hx : x.token = .mark m)
    (hn : (ps.flatMap PropertyTree.tokens).length + (x :: rest).length ≤ n) :
    Takes (properties context n) (ps.flatMap PropertyTree.tokens)
      (fun as => unplacedProperties as = PropertyTree.properties ps) (x :: rest) := by
  have hfollow : ∀ p ∈ ps, ∀ ws more, ws.map Lexeme.token = p.tokens →
      NoCommaNext (ws ++ more) := by
    rintro p - ws more hws y tail htail
    obtain ⟨z, _, rfl, hz, -⟩ := List.map_eq_cons_iff.1 hws
    obtain ⟨rfl, -⟩ := List.cons.inj htail
    rw [hz]
    simp
  have hend : NoCommaNext (x :: rest) := by
    intro y tail htail
    obtain ⟨rfl, -⟩ := List.cons.inj htail
    rw [hx]
    simpa using hm
  have hstop : result (property context n) (x :: rest) = none :=
    Refuses.cons (.bind (by rw [hx]; exact refuses_keyword m))
  have hcount := Reading.length_le_length_flatMap PropertyTree.tokens
    fun p (_ : p ∈ ps) => by simp [PropertyTree.tokens]
  refine (Takes.many PropertyTree.tokens NoCommaNext n
    (R := fun p s => s.node.unplaced = p.property)
    (fun p _ rest' hlength hrest' => takes_property p hlength hrest') hfollow hend hstop hn
    (by omega)).mono fun as has => ?_
  exact map_eq_map_of_forall₂ (has.imp fun p s hs => congrArg nowhere hs)

/-- Properties stand between marks. -/
theorem takes_propertyBlock {opening closing : Mark} (ps : List (PropertyTree context))
    (hclosing : closing ≠ .comma)
    (hn : (ps.flatMap PropertyTree.tokens).length + rest.length < n) :
    Takes (between opening closing (properties context n))
      ([.mark opening] ++ (ps.flatMap PropertyTree.tokens ++ [.mark closing]))
      (fun s => unplacedProperties s.node = PropertyTree.properties ps) rest :=
  takes_between fun x hx => takes_properties hclosing hx (by rw [List.length_cons]; omega)

/-! ## Component types -/

/-- The span from the first to the last of some lexemes. -/
def coveredBy : List (Lexeme Token) → Span
  | [] => ⟨0, 0⟩
  | x :: more => ⟨x.span.start, ((more.map Lexeme.span).getLastD x.span).stop⟩

private theorem result_many_parts {parts : List TypePart} {hs : List (Lexeme Token)}
    {x : Lexeme Token}
    (hhs : hs.map Lexeme.token = parts.map TypePart.token) (hx : x.token = .mark .parenOpen)
    (hn : hs.length ≤ n) :
    result (Reader.many (mark .dot <|> anyWord) n) (hs ++ x :: rest) =
      some (hs.map Lexeme.span, x :: rest) := by
  induction hs generalizing parts n with
  | nil =>
      refine Reader.result_many_of_none (Refuses.cons (.orElse ?_ (.lexeme fun y hy s => ?_))) n
      · rw [hx]
        exact refuses_mark (by simp)
      · simp [hy, hx]
  | cons h hs ih =>
      obtain ⟨n, rfl⟩ : ∃ m, n = m + 1 := ⟨n - 1, by simp at hn; omega⟩
      cases parts with
      | nil => cases hhs
      | cons part parts =>
          simp only [List.map_cons, List.cons.injEq] at hhs
          have hpart : result (mark .dot <|> anyWord) (h :: (hs ++ x :: rest)) =
              some (h.span, hs ++ x :: rest) := by
            rw [Reader.result_hOrElse]
            cases part <;>
              simp [mark, anyWord, hhs.1, TypePart.token]
          rw [List.cons_append, Reader.result_many_succ, hpart]
          dsimp only
          rw [ih hhs.2 (by simpa using hn)]
          rfl

private theorem result_componentType {text : List Char} {c : ComponentTree}
    {ws : List (Lexeme Token)} {x : Lexeme Token} (hws : ws.map Lexeme.token = c.typeTokens)
    (hx : x.token = .mark .parenOpen) (hn : ws.length ≤ n) :
    result (componentType text n) (ws ++ x :: rest) =
      some (⟨coveredBy ws, typeText text (coveredBy ws)⟩, x :: rest) := by
  obtain ⟨first, hs, rfl, hfirst, hhs⟩ := List.map_eq_cons_iff.1 hws
  have hword : result anyWord (first :: (hs ++ x :: rest)) =
      some (first.span, hs ++ x :: rest) := by
    simp [anyWord, hfirst]
  rw [componentType, Reader.result_bind, List.cons_append, hword, Option.bind_some,
    Reader.result_bind, result_many_parts hhs hx (by rw [List.length_cons] at hn; omega)]
  rfl

/-- The text of the type of a component definition that some lexemes write. -/
def writtenType (text : List Char) (c : ComponentTree) (ws : List (Lexeme Token)) : String :=
  typeText text (coveredBy (ws.take c.typeTokens.length))

/-- The texts of the types of several component definitions. -/
def writtenTypes (text : List Char) (cs : List ComponentTree) (ws : List (Lexeme Token)) :
    List String :=
  (locate ComponentTree.tokens cs ws).map fun l => writtenType text l.1 l.2

/-- The lexemes of the types of several component definitions. -/
def typeLexemes (cs : List ComponentTree) (ws : List (Lexeme Token)) :
    List (List (Lexeme Token)) :=
  (locate ComponentTree.tokens cs ws).map fun l => l.2.take l.1.typeTokens.length

/-- The component type that some lexemes write, with the span that they cover. -/
def typeAt (text : List Char) (ws : List (Lexeme Token)) : Spanned String :=
  ⟨coveredBy ws, typeText text (coveredBy ws)⟩

/-- The types in a text are read component by component. -/
theorem writtenTypes_eq_map (text : List Char) (cs : List ComponentTree)
    (ws : List (Lexeme Token)) :
    writtenTypes text cs ws = (typeLexemes cs ws).map fun ws => (typeAt text ws).node := by
  rw [typeLexemes, List.map_map]
  rfl

/-! ## Components and events -/

/-- A component is read from what is derived for it, with the type as it is written. -/
theorem result_component {text : List Char} {c : ComponentTree} {ws : List (Lexeme Token)}
    (hws : ws.map Lexeme.token = c.tokens) (hn : ws.length + rest.length ≤ n) :
    ∃ a, result (component text n) (ws ++ rest) = some (a, rest) ∧
      a.node.unplaced.untyped = c.definition ∧
      a.node.componentType = typeAt text (ws.take c.typeTokens.length) := by
  obtain ⟨first, body, rfl, hfirst, hbody⟩ := List.map_eq_append_iff.1 hws
  obtain ⟨x, more, hcons, hx, -⟩ := List.map_eq_cons_iff.1 hbody
  have hlength := congrArg List.length hbody
  simp only [List.length_map, List.length_append, List.length_cons, List.length_nil] at hlength hn
  have hblock : Takes (between .parenOpen .parenClose (properties .component n)) _ _ rest :=
    takes_propertyBlock c.properties (by simp) (by omega)
  obtain ⟨s, hresult, hproperties⟩ := hblock body hbody
  have htype : result (componentType text n) (first ++ x :: (more ++ rest)) =
      some (⟨coveredBy first, typeText text (coveredBy first)⟩, x :: (more ++ rest)) :=
    result_componentType hfirst hx (by omega)
  have hwritten : typeAt text ((first ++ body).take c.typeTokens.length) = typeAt text first := by
    rw [← hfirst, List.length_map, List.take_left]
  refine ⟨⟨⟨(coveredBy first).start, s.span.stop⟩,
    ⟨⟨coveredBy first, typeText text (coveredBy first)⟩, s.node⟩⟩, ?_, ?_, hwritten.symm⟩
  · rw [component, Reader.result_bind, List.append_assoc, hcons, List.cons_append, htype,
      Option.bind_some, Reader.result_bind, ← List.cons_append, ← hcons, hresult]
    rfl
  · exact congrArg (ComponentDefinition.mk (nowhere "")) hproperties

private theorem takes_eventKind (k : EventKind) :
    Takes eventKind [.word k.text] (fun s => s.node = k) rest :=
  .lexeme fun x hx => ⟨⟨x.span, k⟩, by simp [hx, EventKind.ofText?_eq_some_iff.2 rfl], rfl⟩

/-- An event is read from what is derived for it. -/
theorem takes_event (e : EventTree) (hn : e.tokens.length + rest.length ≤ n) :
    Takes (event n) e.tokens (fun s => s.node.unplaced = e.definition) rest := by
  rw [EventTree.tokens] at hn ⊢
  simp only [List.length_append, List.length_cons, List.length_nil] at hn
  refine .bind (fun _ _ => takes_eventKind e.kind) fun kind hkind => ?_
  refine (takes_propertyBlock e.properties (by simp) (by omega)).bind_pure fun s hs => ?_
  rw [EventDefinition.unplaced, EventTree.definition, hkind, hs]

/-! ## Whole texts -/

private theorem takes_defaults (ps : List (PropertyTree .defaults))
    (hn : (sectionTokens "defaults" (ps.flatMap PropertyTree.tokens)).length + rest.length ≤ n) :
    Takes (defaults n) (sectionTokens "defaults" (ps.flatMap PropertyTree.tokens))
      (fun s => unplacedProperties s.node = PropertyTree.properties ps) rest := by
  rw [sectionTokens] at hn ⊢
  simp only [List.length_append, List.length_cons, List.length_nil] at hn
  refine .bind (fun _ _ => takes_theWord "defaults") fun _ _ => ?_
  exact (takes_propertyBlock ps (by simp) (by omega)).bind_pure fun s hs => hs

private theorem refuses_component {text : List Char} (m : Mark) :
    Refuses (component text n) (.mark m :: ts) rest :=
  .bind (.bind (.lexeme fun x hx s => by simp [hx]))

private theorem refuses_event (m : Mark) : Refuses (event n) (.mark m :: ts) rest :=
  .bind (.lexeme fun x hx s => by simp [hx])

private theorem takes_events (es : List EventTree)
    (hn : (sectionTokens "events" (es.flatMap EventTree.tokens)).length + rest.length ≤ n) :
    Takes (events n) (sectionTokens "events" (es.flatMap EventTree.tokens))
      (fun as => as.map (fun e => nowhere e.node.unplaced) =
        es.map fun e => nowhere e.definition) rest := by
  rw [sectionTokens] at hn ⊢
  simp only [List.length_append, List.length_cons, List.length_nil] at hn
  have hcount := Reading.length_le_length_flatMap EventTree.tokens
    fun e (_ : e ∈ es) => by simp [EventTree.tokens]
  refine .bind (fun _ _ => takes_theWord "events") fun _ _ => ?_
  refine Takes.bind_pure (takes_between (P := List.Forall₂
    (fun (e : EventTree) a => a.node.unplaced = e.definition) es) fun x hx => ?_) fun s hs =>
      map_eq_map_of_forall₂ (hs.imp fun e a ha => congrArg nowhere ha)
  have hstop : Refuses (event n) [x.token] rest := by
    rw [hx]
    exact refuses_event _
  exact Takes.many EventTree.tokens (fun _ => True) n
    (fun e _ rest' hlength _ => takes_event e hlength) (fun _ _ _ _ _ => trivial) trivial
    hstop.cons (by rw [List.length_cons]; omega) (by omega)

private theorem result_components {text : List Char} {cs : List ComponentTree}
    {ws : List (Lexeme Token)}
    (hws : ws.map Lexeme.token = sectionTokens "components" (cs.flatMap ComponentTree.tokens))
    (hn : ws.length + rest.length ≤ n) :
    ∃ as, result (components text n) (ws ++ rest) = some (as, rest) ∧
      as.map (fun c => nowhere c.node.unplaced.untyped) = cs.map (fun c => nowhere c.definition) ∧
      as.map (fun c => c.node.componentType) =
        (typeLexemes cs ((ws ++ rest).drop 2)).map (typeAt text) := by
  obtain ⟨head, tail, rfl, hhead, htail⟩ := List.map_eq_cons_iff.1 hws
  obtain ⟨opening, body, closing, rfl, hopening, hbody, hclosing⟩ := exists_block htail
  simp only [List.length_cons, List.length_append, List.length_nil] at hn
  have hlength : body.length = (cs.flatMap ComponentTree.tokens).length := by
    rw [← hbody, List.length_map]
  have hcount := Reading.length_le_length_flatMap ComponentTree.tokens
    fun c (_ : c ∈ cs) => by simp [ComponentTree.tokens, ComponentTree.typeTokens]
  have hstop : Refuses (component text n) [closing.token] rest := by
    rw [hclosing]
    exact refuses_component _
  obtain ⟨as, hresult, has⟩ := Reader.exists_result_many (p := component text n) (n := n)
    (R := fun (l : ComponentTree × List (Lexeme Token)) a =>
      a.node.unplaced.untyped = l.1.definition ∧
        a.node.componentType = typeAt text (l.2.take l.1.typeTokens.length))
    Prod.snd (fun _ => True) n
    (fun l (hl : l ∈ locate ComponentTree.tokens cs body) rest' hle _ =>
      result_component (Reading.map_of_mem_locate hbody hl) hle)
    (fun _ _ _ => trivial) trivial hstop.cons
    (by rw [Reading.flatMap_locate hbody, List.length_cons]; omega)
    (by rw [Reading.length_locate]; omega)
  rw [Reading.flatMap_locate hbody] at hresult
  refine ⟨as, ?_, ?_, ?_⟩
  · rw [components, Reader.result_bind, List.cons_append, result_theWord hhead,
      Option.bind_some, Reader.result_bind, List.cons_append, List.append_assoc,
      List.singleton_append, result_between hopening hclosing hresult]
    rfl
  · rw [← Reading.map_fst_locate ComponentTree.tokens cs body, List.map_map]
    exact map_eq_map_of_forall₂ (has.imp fun l a ha => congrArg nowhere ha.1)
  · have hdrop : (head :: opening :: (body ++ [closing]) ++ rest).drop 2 =
        body ++ (closing :: rest) := by simp
    rw [hdrop, typeLexemes, Reading.locate_append hbody, List.map_map]
    exact map_eq_map_of_forall₂ (has.imp fun l a ha => ha.2)

private theorem refuses_defaults : Refuses (defaults n) (.word "components" :: ts) rest :=
  .bind (refuses_theWord (by decide))

/-- What a derivation derives is read, and it is read as it is meant. -/
theorem result_definitions {text : List Char} {t : DefinitionsTree} {xs : List (Lexeme Token)}
    (hxs : xs.map Lexeme.token = t.tokens) (hn : xs.length ≤ n) :
    ∃ d, result (definitions text n) xs = some (d, []) ∧ d.unplaced.untyped = t.definitions ∧
      d.components.map (fun c => c.node.componentType) =
        (typeLexemes t.components (xs.drop (t.defaultTokens.length + 2))).map (typeAt text) := by
  obtain ⟨first, more, rfl, hfirst, hmore⟩ := List.map_eq_append_iff.1 hxs
  obtain ⟨second, third, rfl, hsecond, hthird⟩ := List.map_eq_append_iff.1 hmore
  simp only [List.length_append] at hn
  have hlengths : first.length = t.defaultTokens.length ∧ third.length = t.eventTokens.length := by
    rw [← hfirst, ← hthird, List.length_map, List.length_map]
    exact ⟨rfl, rfl⟩
  have hdefaults : Takes (Reader.optional (defaults n)) t.defaultTokens
      (fun o => o.map (fun s => nowhere (unplacedProperties s.node)) =
        t.defaults.map fun ps => nowhere (PropertyTree.properties ps)) (second ++ third) := by
    unfold DefinitionsTree.defaultTokens at hlengths ⊢
    cases hd : t.defaults with
    | none =>
        obtain ⟨x, tail, rfl, hx, -⟩ := List.map_eq_cons_iff.1 hsecond
        have hrefuses : Refuses (defaults n) [x.token] (tail ++ third) := by
          rw [hx]
          exact refuses_defaults
        exact (Takes.optional_none hrefuses.cons).mono fun o ho => by rw [ho]; rfl
    | some ps =>
        rw [hd, Option.elim_some] at hlengths
        refine (takes_defaults ps ?_).optional_some.mono fun o ho => ?_
        · rw [← hlengths.1, List.length_append]
          omega
        · obtain ⟨s, rfl, hs⟩ := ho
          exact congrArg (fun ps => some (nowhere ps)) hs
  have hevents : Takes (Reader.optional (events n)) t.eventTokens
      (fun o => (o.getD []).map (fun e => nowhere e.node.unplaced) =
        (t.events.getD []).map fun e => nowhere e.definition) [] := by
    unfold DefinitionsTree.eventTokens at hlengths ⊢
    cases he : t.events with
    | none => exact (Takes.optional_none rfl).mono fun o ho => by rw [ho]; rfl
    | some es =>
        rw [he, Option.elim_some] at hlengths
        refine (takes_events es ?_).optional_some.mono fun o ho => ?_
        · rw [← hlengths.2, List.length_nil]
          omega
        · obtain ⟨as, rfl, has⟩ := ho
          exact has
  obtain ⟨someDefaults, hfirstResult, hfirstMeans⟩ := hdefaults first hfirst
  have hcomponents : second.length + third.length ≤ n := by omega
  obtain ⟨allComponents, hsecondResult, hsecondMeans, htypes⟩ :=
    result_components hsecond hcomponents
  obtain ⟨someEvents, hthirdResult, hthirdMeans⟩ := hevents third hthird
  refine ⟨⟨someDefaults, allComponents, someEvents.getD []⟩, ?_, ?_, ?_⟩
  · rw [List.append_nil] at hthirdResult
    rw [definitions, Reader.result_bind, hfirstResult, Option.bind_some, Reader.result_bind,
      hsecondResult, Option.bind_some, Reader.result_bind, hthirdResult]
    rfl
  · simp only [Definitions.untyped, Definitions.unplaced, DefinitionsTree.definitions,
      List.map_map, Function.comp_def]
    rw [hfirstMeans, hthirdMeans]
    exact congrArg (fun cs => Definitions.mk _ cs _) hsecondMeans
  · have hdrop : (first ++ (second ++ third)).drop (t.defaultTokens.length + 2) =
        (second ++ third).drop 2 := by
      rw [← hlengths.1, ← List.drop_drop, List.drop_left]
    rw [hdrop]
    exact htypes

end InfraGraph.Definition.Grammar
