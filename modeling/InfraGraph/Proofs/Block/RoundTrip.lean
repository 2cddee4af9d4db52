import InfraGraph.Proofs.Block.Alike
import InfraGraph.Proofs.Block.Precedence
import InfraGraph.Proofs.Block.Spelling
import InfraGraph.Proofs.Block.Tiling

/-!
# Code blocks, written down and read back

A written code block is cut into the tokens it was written with. Brackets are closed again within an
expression, so the separators between statements stand outside of brackets and none of them is
dropped. What is read from the tokens is the block itself.

## Main results

* `Expr.tidy_tokens` — what an expression is written with.
* `lexemes_write` — the tokens of a written code block.
* `read_write` — a code block that is written down is read back.
-/

namespace InfraGraph.Block

open Reading (Reader Lexeme Piece moreTokens CutsOff Ends Flawless spaced tokenChunks textOf)
open Reading.Reader (Takes Refuses result)

/-! ## Tidy tokens -/

/-- Tokens of an expression: they can be written, no assignment is among them, and every bracket is
closed again. -/
structure Tidy (ts : List Token) : Prop where
  spelled : ∀ t ∈ ts, t.Spelled
  noAssign : ∀ t ∈ ts, t ≠ .symbol .assign
  balanced : ∀ depth, ts.foldl Token.depthAfter depth = depth

namespace Tidy

variable {ts us : List Token}

theorem nil : Tidy [] :=
  ⟨fun _ h => absurd h List.not_mem_nil, fun _ h => absurd h List.not_mem_nil, fun _ => rfl⟩

/-- Tidy tokens may follow each other. -/
theorem append (hts : Tidy ts) (hus : Tidy us) : Tidy (ts ++ us) where
  spelled := fun t ht => (List.mem_append.1 ht).elim (hts.spelled t) (hus.spelled t)
  noAssign := fun t ht => (List.mem_append.1 ht).elim (hts.noAssign t) (hus.noAssign t)
  balanced := fun depth => by rw [List.foldl_append, hts.balanced, hus.balanced]

theorem cons {t : Token} (hspelled : t.Spelled) (hassign : t ≠ .symbol .assign)
    (hdepth : ∀ depth, Token.depthAfter depth t = depth) (hts : Tidy ts) : Tidy (t :: ts) where
  spelled := List.forall_mem_cons.2 ⟨hspelled, hts.spelled⟩
  noAssign := List.forall_mem_cons.2 ⟨hassign, hts.noAssign⟩
  balanced := fun depth => by rw [List.foldl_cons, hdepth, hts.balanced]

/-- Tidy tokens may stand in brackets. -/
theorem bracketed {opening closing : Symbol} (hopening : opening.opens = true)
    (hclosing : closing.closes = true) (hts : Tidy ts) :
    Tidy (.symbol opening :: (ts ++ [.symbol closing])) where
  spelled := by
    intro t ht
    rcases List.mem_cons.1 ht with rfl | ht
    · trivial
    · rcases List.mem_append.1 ht with ht | ht
      · exact hts.spelled t ht
      · obtain rfl := List.mem_singleton.1 ht
        trivial
  noAssign := by
    intro t ht
    rcases List.mem_cons.1 ht with rfl | ht
    · rintro ⟨⟩
      cases hopening
    · rcases List.mem_append.1 ht with ht | ht
      · exact hts.noAssign t ht
      · obtain rfl := List.mem_singleton.1 ht
        rintro ⟨⟩
        cases hclosing
  balanced := by
    intro depth
    have hshut : closing.opens = false := by cases closing <;> first | rfl | cases hclosing
    rw [List.foldl_cons, List.foldl_append, hts.balanced]
    simp [Token.depthAfter, hopening, hclosing, hshut]

private theorem operandTokens (hts : Tidy ts) (expected actual : Nat) :
    Tidy (Expr.operandTokens expected actual ts) := by
  unfold Expr.operandTokens
  split
  · exact hts
  · exact bracketed rfl rfl hts

private theorem moreTokens {β : Type} {tokens : β → List Token} {is : List β}
    (his : ∀ i ∈ is, Tidy (tokens i)) :
    Tidy (Reading.moreTokens (.symbol .comma) tokens is false) := by
  induction is with
  | nil => exact nil
  | cons i is ih =>
      rw [Reading.moreTokens_cons]
      exact cons trivial (by simp) (fun _ => rfl) ((his i List.mem_cons_self).append
        (ih fun j hj => his j (List.mem_cons_of_mem i hj)))

private theorem listed {β : Type} {tokens : β → List Token} {is : List β}
    (his : ∀ i ∈ is, Tidy (tokens i)) :
    Tidy (Reading.moreTokens (.symbol .comma) tokens is false).tail := by
  cases is with
  | nil => exact nil
  | cons i is =>
      rw [Reading.moreTokens_cons, List.tail_cons]
      exact (his i List.mem_cons_self).append
        (moreTokens fun j hj => his j (List.mem_cons_of_mem i hj))

end Tidy

/-- The tokens of a writable expression are tidy. -/
theorem Expr.tidy_tokens {e : Expr} (he : e.Writable) : Tidy e.tokens := by
  induction he with
  | null => exact .cons trivial (by simp [constantToken]) (fun _ => rfl) .nil
  | bool b => cases b <;> exact .cons trivial (by simp [constantToken]) (fun _ => rfl) .nil
  | string s => exact .cons trivial (by simp [constantToken]) (fun _ => rfl) .nil
  | int hn => exact .cons hn (by simp [constantToken]) (fun _ => rfl) .nil
  | name htext => exact .cons htext (by simp) (fun _ => rfl) .nil
  | list _ ih =>
      rw [tokens, itemTokens_eq]
      exact .bracketed rfl rfl (.listed ih)
  | map _ ih =>
      rw [tokens, entryTokens_eq]
      refine .bracketed rfl rfl (.listed fun entry hentry => ?_)
      exact .cons trivial (by simp) (fun _ => rfl)
        (.cons trivial (by simp) (fun _ => rfl) (ih entry hentry))
  | unary op _ ih =>
      cases op <;> exact .cons trivial (by simp [UnaryOp.symbol]) (fun _ => rfl)
        (ih.operandTokens _ _)
  | binary op _ _ ihleft ihright =>
      refine (ihleft.operandTokens _ _).append
        (.cons trivial ?_ (fun _ => ?_) (ihright.operandTokens _ _))
      · cases op <;> simp [BinaryOp.symbol]
      · cases op <;> rfl
  | conditional _ _ _ ihcondition ihyes ihno =>
      refine .cons trivial (by simp) (fun _ => rfl) (ihcondition.append ?_)
      refine .cons trivial (by simp) (fun _ => rfl) (ihyes.append ?_)
      exact .cons trivial (by simp) (fun _ => rfl) ihno
  | field _ htext ih =>
      refine (ih.operandTokens _ _).append (.cons trivial (by simp) (fun _ => rfl) ?_)
      exact .cons htext (by simp) (fun _ => rfl) .nil
  | index _ _ ihbase ihplace =>
      exact (ihbase.operandTokens _ _).append (.bracketed rfl rfl ihplace)
  | call _ _ ihcallee iharguments =>
      rw [tokens, itemTokens_eq]
      exact (ihcallee.operandTokens _ _).append (.bracketed rfl rfl (.listed iharguments))

namespace Statement

theorem spelled_of_mem_tokens {s : Statement} (hs : s.Writable) : ∀ t ∈ s.tokens, t.Spelled := by
  cases hs with
  | assign htarget he =>
      exact List.forall_mem_cons.2 ⟨htarget, List.forall_mem_cons.2
        ⟨trivial, (Expr.tidy_tokens he).spelled⟩⟩
  | expr he => exact (Expr.tidy_tokens he).spelled

private theorem balanced_tokens {s : Statement} (hs : s.Writable) (depth : Nat) :
    s.tokens.foldl Token.depthAfter depth = depth := by
  cases hs with
  | assign htarget he => exact (Expr.tidy_tokens he).balanced depth
  | expr he => exact (Expr.tidy_tokens he).balanced depth

end Statement

/-! ## Separators -/

variable {xs ws rest : List (Lexeme Token)}

/-- Nothing is dropped up to the end of a statement. -/
theorem dropSeparators_append (hws : ∀ x ∈ ws, x.token ≠ .separator) (hne : ws ≠ [])
    (depth : Nat) (fresh : Bool) :
    Token.dropSeparators depth fresh (ws ++ rest) =
      ws ++ Token.dropSeparators ((ws.map Lexeme.token).foldl Token.depthAfter depth) false
        rest := by
  induction ws generalizing depth fresh with
  | nil => exact absurd rfl hne
  | cons x ws ih =>
      rw [List.cons_append, Token.dropSeparators_cons (hws x List.mem_cons_self), List.map_cons,
        List.foldl_cons, List.cons_append]
      cases ws with
      | nil => rfl
      | cons y ws =>
          rw [ih (fun z hz => hws z (List.mem_cons_of_mem x hz)) (by simp)]

/-- The tokens of a code block. -/
def tokensOf (b : Block) : List Token := (moreTokens .separator Statement.tokens b false).tail

/-- The tokens of a block are those of its first statement and then of the others. -/
theorem tokensOf_cons (s : Statement) (b : Block) :
    tokensOf (s :: b) = s.tokens ++ moreTokens .separator Statement.tokens b false := by
  rw [tokensOf, Reading.moreTokens_cons, List.tail_cons]

theorem Statement.tokens_ne_nil (s : Statement) : s.tokens ≠ [] := by
  cases s with
  | assign target e => simp [tokens]
  | expr e => cases e <;> simp [tokens, Expr.tokens]

/-- The separators between statements are kept. -/
theorem dropSeparators_of_tokensOf {b : Block} (hb : ∀ s ∈ b, s.Writable)
    (hxs : xs.map Lexeme.token = tokensOf b) : Token.dropSeparators 0 true xs = xs := by
  have hspelled : ∀ s ∈ b, ∀ ws : List (Lexeme Token), ws.map Lexeme.token = s.tokens →
      ∀ x ∈ ws, x.token ≠ .separator := by
    intro s hs ws hws x hx hseparator
    have hspelled := Statement.spelled_of_mem_tokens (hb s hs) x.token
      (hws ▸ List.mem_map_of_mem hx)
    rw [hseparator] at hspelled
    exact hspelled
  have hne : ∀ (s : Statement) (ws : List (Lexeme Token)), ws.map Lexeme.token = s.tokens →
      ws ≠ [] := by
    rintro s ws hws rfl
    exact s.tokens_ne_nil hws.symm
  -- Every further statement stands behind a separator, outside of brackets.
  have hmore : ∀ (more : List Statement) (ws : List (Lexeme Token)), (∀ s ∈ more, s ∈ b) →
      ws.map Lexeme.token = moreTokens .separator Statement.tokens more false →
        Token.dropSeparators 0 false ws = ws := by
    intro more
    induction more with
    | nil =>
        intro ws _ hws
        rw [List.map_eq_nil_iff.1 hws]
        rfl
    | cons s more ih =>
        intro ws hsub hws
        rw [Reading.moreTokens_cons] at hws
        obtain ⟨x, tail, rfl, hx, htail⟩ := List.map_eq_cons_iff.1 hws
        obtain ⟨first, last, rfl, hfirst, hlast⟩ := List.map_eq_append_iff.1 htail
        have hs : s ∈ b := hsub s List.mem_cons_self
        have hkept : Token.dropSeparators 0 false (x :: (first ++ last)) =
            x :: Token.dropSeparators 0 true (first ++ last) :=
          Token.dropSeparators_separator hx
        rw [hkept, dropSeparators_append (hspelled s hs first hfirst) (hne s first hfirst),
          hfirst, Statement.balanced_tokens (hb s hs),
          ih last (fun t ht => hsub t (List.mem_cons_of_mem s ht)) hlast]
  cases b with
  | nil =>
      rw [List.map_eq_nil_iff.1 hxs]
      rfl
  | cons s more =>
      rw [tokensOf_cons] at hxs
      obtain ⟨first, last, rfl, hfirst, hlast⟩ := List.map_eq_append_iff.1 hxs
      have hs : s ∈ s :: more := List.mem_cons_self
      rw [dropSeparators_append (hspelled s hs first hfirst) (hne s first hfirst), hfirst,
        Statement.balanced_tokens (hb s hs),
        hmore more last (fun t ht => List.mem_cons_of_mem s ht) hlast]

/-! ## Reading statements -/

namespace Grammar

variable {n : Nat}

/-- A statement ends here. -/
def AtBreak (rest : List (Lexeme Token)) : Prop := ∀ x more, rest = x :: more → x.token = .separator

private theorem gripOf_of_atBreak (hrest : AtBreak rest) : gripOf rest = 0 := by
  cases rest with
  | nil => rfl
  | cons x more =>
      rw [gripOf, hrest x more rfl]
      rfl

private theorem result_symbol_of_atBreak (s : Symbol) (hrest : AtBreak rest) :
    result (symbol s) rest = none := by
  cases rest with
  | nil => rfl
  | cons x more =>
      refine Refuses.cons (refuses_symbol ?_)
      rw [hrest x more rfl]
      simp

/-- An expression is not taken for an assignment. -/
theorem result_name_assign_eq_none {e : Expr} (he : e.Writable)
    (hws : ws.map Lexeme.token = e.tokens) (hrest : AtBreak rest) {target : String}
    {more : List (Lexeme Token)} (hname : result name (ws ++ rest) = some (target, more)) :
    result (symbol .assign) more = none := by
  cases ws with
  | nil => exact absurd hws.symm (Statement.tokens_ne_nil (.expr e))
  | cons x ws =>
      have hmore : more = ws ++ rest := by
        rw [name, List.cons_append, Reader.result_lexeme_cons] at hname
        split at hname
        · cases hname
          rfl
        · cases hname
      rw [hmore]
      cases ws with
      | nil => exact result_symbol_of_atBreak _ hrest
      | cons y ws =>
          refine Refuses.cons (refuses_symbol fun hy => ?_)
          have hmem : y.token ∈ e.tokens := by
            rw [← hws]
            simp
          exact (Expr.tidy_tokens he).noAssign y.token hmem hy

private theorem takes_statement {s : Statement} (hs : s.Writable)
    (hn : s.tokens.length + rest.length < n) (hrest : AtBreak rest) :
    Takes (statement n) s.tokens (· = s) rest := by
  cases hs with
  | @assign target e _ he =>
      rw [Statement.tokens, List.length_cons, List.length_cons] at hn
      refine .orElse_left (Takes.bind_cons (fun _ => takes_name target)
        fun a ha => ?_)
      refine Takes.bind_cons (fun _ => takes_symbol .assign)
        fun _ _ => ?_
      refine (takes_expression he (by omega) (gripOf_of_atBreak hrest)).bind_pure fun b hb => ?_
      rw [ha, hb]
  | @expr e he =>
      refine .orElse_right (fun ws hws => ?_)
        ((takes_expression he hn (gripOf_of_atBreak hrest)).map fun b hb => by rw [hb])
      rw [Reader.result_bind]
      cases hname : result name (ws ++ rest) with
      | none => rfl
      | some r =>
          rw [Option.bind_some, Reader.result_bind,
            result_name_assign_eq_none he hws hrest hname]
          rfl

private theorem takes_statements {b : Block} (hb : ∀ s ∈ b, s.Writable)
    (hn : (tokensOf b).length < n) :
    Takes (Reader.items (statement n) separator n) (tokensOf b) (· = b) [] := by
  cases b with
  | nil => exact .items_nil result_statement_nil
  | cons s more =>
      have hseparator : ∀ rest, Takes separator [.separator] (fun _ => True) rest :=
        fun _ => .lexeme fun x hx => ⟨(), by simp [hx], trivial⟩
      have hfollow : ∀ x tail, x.token = .separator → AtBreak (x :: tail) := by
        intro x tail hx y _ hcons
        obtain ⟨rfl, -⟩ := List.cons.inj hcons
        exact hx
      have hcount := Reading.length_le_length_moreTokens Statement.tokens .separator more false
      rw [tokensOf_cons] at hn ⊢
      have hlength := hn
      rw [List.length_append] at hlength
      refine (Takes.items_cons Statement.tokens AtBreak (n - 1) (R := fun s a => a = s)
        hseparator (fun t ht rest' hle hrest => takes_statement (hb t ht) (by omega) hrest) hfollow
        (fun _ _ h => by cases h) rfl result_statement_nil (by rw [List.length_nil]; omega)
        (by omega)).mono fun as has => ?_
      exact (List.forall₂_eq_eq_eq ▸ has.imp fun _ _ h => h.symm : s :: more = as).symm

/-- The tokens of a code block are read as this block. -/
theorem result_block {b : Block} (hb : ∀ s ∈ b, s.Writable)
    (hxs : xs.map Lexeme.token = tokensOf b) (hn : xs.length < n) :
    result (block n) xs = some (b, []) := by
  have hleading : result separator xs = none := by
    cases xs with
    | nil => rfl
    | cons x xs =>
        have hx : x.token ≠ .separator := by
          cases b with
          | nil => cases hxs
          | cons s more =>
              obtain ⟨t, tail, htokens⟩ := List.exists_cons_of_ne_nil s.tokens_ne_nil
              rw [tokensOf_cons, htokens, List.map_cons, List.cons_append] at hxs
              have hspelled := Statement.spelled_of_mem_tokens (hb s List.mem_cons_self) t
                (htokens ▸ List.mem_cons_self)
              intro hseparator
              rw [← (List.cons.inj hxs).1, hseparator] at hspelled
              exact hspelled
        exact result_separator_eq_none hx
  have hlength : (tokensOf b).length < n := by rwa [← hxs, List.length_map]
  obtain ⟨_, hresult, rfl⟩ := takes_statements hb hlength xs hxs
  rw [List.append_nil] at hresult
  rw [block, Reader.result_bind, Reader.result_optional, hleading]
  exact hresult

end Grammar

/-! ## Texts -/

/-- The pieces that a code block is written with. -/
def piecesOf : (Nat → Break) → Block → List (Piece Token)
  | _, [] => []
  | _, [s] => spaced (tokenChunks Token.spelling s.tokens)
  | breaks, s :: t :: more =>
      spaced (tokenChunks Token.spelling s.tokens) ++
        ⟨[(breaks 0).char], .token .separator⟩ :: piecesOf (fun i => breaks (i + 1)) (t :: more)

private theorem textOf_piecesOf (breaks : Nat → Break) (b : Block) :
    textOf (piecesOf breaks b) = write breaks b := by
  induction b generalizing breaks with
  | nil => rfl
  | cons s more ih =>
      cases more with
      | nil => exact Reading.textOf_tokenChunks Token.spelling s.tokens
      | cons t more =>
          rw [piecesOf, Reading.textOf_append, Reading.textOf_cons, ih,
            Reading.textOf_tokenChunks]
          rfl

private theorem cutsOff_piecesOf (breaks : Nat → Break) {b : Block} (hb : ∀ s ∈ b, s.Writable) :
    CutsOff Token.cut (piecesOf breaks b) [] := by
  have hstatement : ∀ s ∈ b, ∀ rest, Ends rest →
      CutsOff Token.cut (spaced (tokenChunks Token.spelling s.tokens)) rest := by
    intro s hs rest hrest
    refine Reading.cutsOff_spaced (fun chunk hchunk => ?_) hrest
    obtain ⟨t, ht, rfl⟩ := List.mem_map.1 hchunk
    exact Token.chunk (Statement.spelled_of_mem_tokens (hb s hs) t ht)
  induction b generalizing breaks with
  | nil => trivial
  | cons s more ih =>
      cases more with
      | nil => exact hstatement s List.mem_cons_self [] Reading.ends_nil
      | cons t more =>
          have hends : ∀ rest, Ends ((breaks 0).char :: rest) := by
            intro rest
            cases breaks 0 with
            | newline => exact Reading.ends_cons (.inr (.inl rfl)) rest
            | semicolon => exact Reading.ends_cons (.inr (.inr rfl)) rest
          rw [piecesOf, Reading.cutsOff_append]
          refine ⟨?_, ⟨(breaks 0).char, [], rfl, ?_⟩, ?_⟩
          · rw [Reading.textOf_cons]
            exact hstatement s List.mem_cons_self _ (hends _)
          · cases breaks 0 <;> rfl
          · exact ih _ (fun u hu => hb u (List.mem_cons_of_mem s hu))
              fun u hu => hstatement u (List.mem_cons_of_mem s hu)

private theorem flawless_piecesOf (breaks : Nat → Break) (b : Block) :
    Flawless (piecesOf breaks b) := by
  induction b generalizing breaks with
  | nil => exact fun _ hp => absurd hp List.not_mem_nil
  | cons s more ih =>
      have hstatement := Reading.flawless_spaced
        (Reading.flawless_tokenChunks Token.spelling s.tokens)
      cases more with
      | nil => exact hstatement
      | cons t more =>
          exact Reading.flawless_append hstatement
            (List.forall_mem_cons.2 ⟨fun _ _ => by simp, ih _⟩)

private theorem tokens_piecesOf (breaks : Nat → Break) (b : Block) :
    (piecesOf breaks b).filterMap Piece.token? = tokensOf b := by
  induction b generalizing breaks with
  | nil => rfl
  | cons s more ih =>
      have hstatement := Reading.filterMap_tokenChunks Token.spelling s.tokens
      rw [tokensOf_cons]
      cases more with
      | nil => simpa [piecesOf] using hstatement
      | cons t more =>
          rw [piecesOf, List.filterMap_append, hstatement, Reading.moreTokens_cons,
            ← tokensOf_cons]
          exact congrArg _ (congrArg _ (ih _))

/-- A written block is cut into its tokens. -/
theorem lexemes_write (breaks : Nat → Break) {b : Block} (hb : ∀ s ∈ b, s.Writable) :
    ∃ xs, Token.lexemes (write breaks b) = .ok xs ∧ xs.map Lexeme.token = tokensOf b := by
  have hraw := Reading.lexemes_of_cutsOff Token.cut_faithful (cutsOff_piecesOf breaks hb)
    (flawless_piecesOf breaks b)
  have htokens : (Reading.lexemesFrom 0 (piecesOf breaks b)).map Lexeme.token = tokensOf b := by
    rw [Reading.map_token_lexemesFrom, tokens_piecesOf]
  refine ⟨_, ?_, htokens⟩
  rw [textOf_piecesOf] at hraw
  rw [Token.lexemes, hraw]
  exact congrArg Except.ok (dropSeparators_of_tokensOf hb htokens)

/-- A code block that is written down, with the fewest parentheses and with newlines or semicolons
between its statements, is read back as it is. -/
theorem read_write (breaks : Nat → Break) {b : Block} (hb : ∀ s ∈ b, s.Writable) :
    read (write breaks b) = .ok b := by
  obtain ⟨xs, hlexemes, hxs⟩ := lexemes_write breaks hb
  rw [read, hlexemes]
  exact Reader.readAll_eq_ok_iff.2 (Grammar.result_block hb hxs (by omega))

/-- A sum under a product, a prefix operator before an index, and a conditional as an operand. -/
def mixedBlock : Block :=
  [.assign "x" (.binary .mul (.binary .add (.literal (.int 1)) (.name "y"))
      (.unary .neg (.index (.name "z") (.literal (.int 0))))),
    .expr (.binary .sub (.name "x") (.conditional (.name "y") (.literal .null) (.map [])))]

theorem read_write_mixedBlock :
    write (fun _ => .semicolon) mixedBlock =
        "x = ( 1 + y ) * - z [ 0 ];x - ( if y then null else \x7b \x7d )".toList ∧
      read (write (fun _ => .semicolon) mixedBlock) = .ok mixedBlock := by
  refine ⟨by decide +kernel, read_write _ ?_⟩
  have hx : Expr.isName "x" = true := by decide
  have hy : (Expr.name "y").Writable := .name (by decide)
  have hz : (Expr.name "z").Writable := .name (by decide)
  intro s hs
  simp only [mixedBlock, List.mem_cons, List.not_mem_nil, or_false] at hs
  rcases hs with rfl | rfl
  · exact .assign hx (.binary .mul (.binary .add (.int (by decide)) hy)
      (.unary .neg (.index hz (.int (by decide)))))
  · exact .expr (.binary .sub (.name hx) (.conditional hy .null
      (.map fun _ h => absurd h List.not_mem_nil)))

end InfraGraph.Block
