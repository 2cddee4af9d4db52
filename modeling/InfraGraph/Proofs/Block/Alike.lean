import InfraGraph.Block.Grammar
import InfraGraph.Proofs.Reading.Alike
import Mathlib.Data.List.Basic

/-!
# What the grammar of code blocks depends on

What is read of a code block depends on its tokens alone: neither on their places, nor on the bounds
of the readers, nor on separators behind an expression. A separator behind the last statement makes
no difference.

## Main results

* `Grammar.alike_expression`, `Grammar.alike_statement` — the readers read alike.
* `Grammar.result_block_iff` — a code block is read from tokens alone, with or without a separator
  at the end.
-/

namespace InfraGraph.Block.Grammar

open Reading (Reader Lexeme)
open Reading.Reader (Alike result)

variable {α : Type} {bound m n : Nat} {tail : List Token}

/-! ## The readers -/

section

variable (htail : ∀ t ∈ tail, t = .separator)

include htail

private theorem alike_lexeme {what : List String} {judge : Lexeme Token → Reader.Verdict α}
    (hjudge : ∀ x y : Lexeme Token, x.token = y.token → judge x = judge y)
    (hseparator : ∀ x a, x.token = .separator → judge x ≠ .take a) :
    Alike bound 1 tail (Reader.lexeme what judge) (Reader.lexeme what judge) :=
  .lexeme hjudge fun x a htake hx => hseparator x a (htail _ hx) htake

private theorem alike_symbol (s : Symbol) : Alike bound 1 tail (symbol s) (symbol s) :=
  alike_lexeme htail (fun x y h => by rw [h]) fun x a hx => by rw [hx]; exact fun h => by cases h

private theorem alike_name : Alike bound 1 tail name name :=
  alike_lexeme htail (fun x y h => by rw [h]) fun x a hx => by rw [hx]; exact fun h => by cases h

private theorem alike_literal : Alike bound 1 tail literal literal :=
  alike_lexeme htail (fun x y h => by rw [h]) fun x a hx => by rw [hx]; exact fun h => by cases h

private theorem alike_entryKey : Alike bound 1 tail entryKey entryKey :=
  alike_lexeme htail (fun x y h => by rw [h]) fun x a hx => by rw [hx]; exact fun h => by cases h

private theorem alike_between (opening closing : Symbol) {least : Nat} {p q : Reader Token α}
    (h : Alike (bound - 1) least tail p q) :
    Alike bound 1 tail (between opening closing p) (between opening closing q) :=
  (alike_symbol htail opening).bind_left fun _ => h.bind_left fun _ =>
    (alike_symbol htail closing).bind_left fun _ => .pure _

private theorem alike_oneOf (ops : List (Symbol × BinaryOp)) :
    Alike bound 1 tail (oneOf ops) (oneOf ops) := by
  induction ops with
  | nil => exact .never
  | cons r ops ih => exact ((alike_symbol htail r.1).bind_left fun _ => .pure r.2).orElse ih

/-! ### Readers with expressions inside

Inside an expression, there is a lexeme less. -/

variable {e e' : Reader Token Expr} (he : Alike (bound - 1) 1 tail e e')

include he

private theorem alike_conditional : Alike bound 1 tail (conditional e) (conditional e') := by
  have hless {b : Nat} (hb : b ≤ bound - 1) : Alike b 1 tail e e' := he.mono hb (Nat.le_refl 1)
  exact (alike_symbol htail .ifWord).bind_left fun _ => he.bind_left fun _ =>
    (alike_symbol htail .thenWord).bind_left fun _ => (hless (by omega)).bind_left fun _ =>
      (alike_symbol htail .elseWord).bind_left fun _ => (hless (by omega)).bind_left fun _ =>
        .pure _

private theorem alike_entry : Alike (bound - 1) 1 tail (entry e) (entry e') :=
  (alike_entryKey htail).bind_left fun _ => (alike_symbol htail .colon).bind_left fun _ =>
    (he.mono (by omega) (Nat.le_refl 1)).bind_left fun _ => .pure _

variable (hm : bound ≤ m + 1) (hn : bound ≤ n + 1)

include hm hn

private theorem alike_expressions : Alike (bound - 1) 0 tail (expressions e m) (expressions e' n) :=
  he.items (alike_symbol htail .comma) (by omega) (by omega)

private theorem alike_atom : Alike bound 1 tail (atom e m) (atom e' n) := by
  have hlist : Alike bound 1 tail (between .bracketOpen .bracketClose (expressions e m))
      (between .bracketOpen .bracketClose (expressions e' n)) :=
    alike_between htail _ _ (alike_expressions htail he hm hn)
  have hentries : Alike (bound - 1) 0 tail (Reader.items (entry e) (symbol .comma) m)
      (Reader.items (entry e') (symbol .comma) n) :=
    (alike_entry htail he).items (alike_symbol htail .comma) (by omega) (by omega)
  exact (alike_literal htail).orElse ((alike_conditional htail he).orElse
    (((alike_name htail).map _).orElse ((hlist.map _).orElse
      (((alike_between htail _ _ hentries).map _).orElse (alike_between htail _ _ he)))))

private theorem alike_behind : Alike bound 1 tail (behind e m) (behind e' n) := by
  have hfield : Alike bound 1 tail (do symbol .dot; Postfix.field <$> name)
      (do symbol .dot; Postfix.field <$> name) :=
    (alike_symbol htail .dot).bind_left fun _ => (alike_name htail).map _
  exact hfield.orElse (((alike_between htail _ _ he).map _).orElse
    ((alike_between htail _ _ (alike_expressions htail he hm hn)).map _))

private theorem alike_access : Alike bound 1 tail (access e m) (access e' n) :=
  (alike_atom htail he hm hn).bind_left fun _ =>
    (((alike_behind htail he hm hn).many hm hn).mono (Nat.sub_le bound 1) (Nat.le_refl 0)).bind_left
      fun _ => .pure _

private theorem alike_operand : Alike bound 1 tail (operand e m) (operand e' n) := by
  have hsign : Alike bound 1 tail
      ((do symbol .minus; return .neg) <|> (do symbol .bang; return .not) : Reader Token UnaryOp)
      ((do symbol .minus; return .neg) <|> (do symbol .bang; return .not)) :=
    ((alike_symbol htail .minus).bind_left fun _ => .pure _).orElse
      ((alike_symbol htail .bang).bind_left fun _ => .pure _)
  exact (hsign.many hm hn).bind fun _ => (alike_access htail he hm hn).bind_left fun _ => .pure _

omit he in
private theorem alike_level (ops : List (Symbol × BinaryOp)) {p q : Reader Token Expr}
    (h : Alike bound 1 tail p q) : Alike bound 1 tail (level ops m p) (level ops n q) := by
  have hstep : Alike bound 1 tail (do let op ← oneOf ops; let right ← p; return (op, right))
      (do let op ← oneOf ops; let right ← q; return (op, right)) :=
    (alike_oneOf htail ops).bind_left fun _ =>
      (h.mono (Nat.sub_le bound 1) (Nat.le_refl 1)).bind_left fun _ => .pure _
  exact h.bind_left fun _ =>
    ((hstep.many hm hn).mono (Nat.sub_le bound 1) (Nat.le_refl 0)).bind_left fun _ => .pure _

private theorem alike_expressionWith :
    Alike bound 1 tail (expressionWith e m) (expressionWith e' n) := by
  have hlevels : ∀ (levels : List (List (Symbol × BinaryOp))) (p q : Reader Token Expr),
      Alike bound 1 tail p q → Alike bound 1 tail (levels.foldl (fun p ops => level ops m p) p)
        (levels.foldl (fun p ops => level ops n p) q) := by
    intro levels
    induction levels with
    | nil => exact fun _ _ h => h
    | cons ops levels ih => exact fun _ _ h => ih _ _ (alike_level htail hm hn ops h)
  exact hlevels levels _ _ (alike_operand htail he hm hn)

end

section

variable (htail : ∀ t ∈ tail, t = .separator) (hm : bound ≤ m) (hn : bound ≤ n)

include htail hm hn

/-- An expression is read alike whether or not the tail stands behind it. -/
theorem alike_expression : Alike bound 1 tail (expression m) (expression n) := by
  induction bound generalizing m n with
  | zero => exact fun _ _ h => absurd h (Nat.not_lt_zero _)
  | succ bound ih =>
      obtain ⟨m, rfl⟩ : ∃ l, m = l + 1 := ⟨m - 1, by omega⟩
      obtain ⟨n, rfl⟩ : ∃ l, n = l + 1 := ⟨n - 1, by omega⟩
      exact alike_expressionWith htail (ih (by omega) (by omega)) hm hn

/-- A statement is read alike whether or not the tail stands behind it. -/
theorem alike_statement : Alike bound 1 tail (statement m) (statement n) := by
  have hexpression := alike_expression htail hm hn
  have hassign : Alike bound 1 tail
      (do let target ← name; symbol .assign; let e ← expression m; return .assign target e)
      (do let target ← name; symbol .assign; let e ← expression n; return .assign target e :
        Reader Token Statement) :=
    (alike_name htail).bind_left fun _ => (alike_symbol htail .assign).bind_left fun _ =>
      (hexpression.mono (by omega) (Nat.le_refl 1)).bind_left fun _ => .pure _
  exact hassign.orElse (hexpression.map _)

end

/-- A statement has a token at least. -/
theorem result_statement_nil : result (statement n) [] = none := by
  cases n with
  | zero => rfl
  | succ n =>
      have hstatement : Alike (n + 1) 1 [] (statement (n + 1)) (statement (n + 1)) :=
        alike_statement (fun _ h => absurd h List.not_mem_nil) (Nat.le_refl _) (Nat.le_refl _)
      exact (hstatement.refuses_nil (Nat.succ_pos n) rfl).2

/-! ## Whole code blocks -/

variable {xs ys rest : List (Lexeme Token)}

theorem result_separator_cons {x : Lexeme Token} (hx : x.token = .separator) :
    result separator (x :: rest) = some ((), rest) := by
  rw [separator, Reader.result_lexeme_cons, hx]

theorem result_separator_eq_none {x : Lexeme Token} (hx : x.token ≠ .separator) :
    result separator (x :: rest) = none := by
  rw [separator, Reader.result_lexeme_cons]
  cases ht : x.token with
  | separator => exact absurd ht hx
  | _ => rfl

private theorem alike_separator : Alike bound 1 [] separator separator :=
  .lexeme (fun x y h => by rw [h]) fun x a _ => List.not_mem_nil

private theorem alike_block (hm : bound ≤ m) (hn : bound ≤ n) :
    Alike bound 0 [] (block m) (block n) := by
  have hstatement : Alike bound 1 [] (statement m) (statement n) :=
    alike_statement (fun _ h => absurd h List.not_mem_nil) hm hn
  exact alike_separator.optional.bind fun _ =>
    hstatement.items alike_separator (by omega) (by omega)

/-- The tokens of a code block are read alike, wherever they stand. -/
theorem result_block_iff (hys : ys.map Lexeme.token = xs.map Lexeme.token) (hm : xs.length < m)
    (hn : xs.length < n) {b : Block} :
    result (block m) xs = some (b, []) ↔ result (block n) ys = some (b, []) := by
  have hblock : Alike (xs.length + 1) 0 [] (block m) (block n) := alike_block hm hn
  have htokens : ys.map Lexeme.token = xs.map Lexeme.token ++ [] := by rw [List.append_nil, hys]
  rcases hblock xs ys (Nat.lt_succ_self _) htokens with ⟨hx, hy⟩ |
    ⟨a, rest, others, hx, hy, hleaves⟩
  · rw [hx, hy]
  · have hnil : rest = [] ↔ others = [] := by
      have hmap := hleaves.tokens
      rw [List.append_nil] at hmap
      rw [← List.map_eq_nil_iff (f := Lexeme.token), ← hmap, List.map_eq_nil_iff]
    rw [hx, hy, Option.some_inj, Option.some_inj, Prod.mk.injEq, Prod.mk.injEq, hnil]

/-! ### A separator at the end -/

/-- The last one of some lexemes is no separator. -/
def EndsStatement (xs : List (Lexeme Token)) : Prop :=
  ∃ x, xs.getLast? = some x ∧ x.token ≠ .separator

theorem EndsStatement.ne_nil (h : EndsStatement xs) : xs ≠ [] := by
  rintro rfl
  obtain ⟨x, hx, -⟩ := h
  cases hx

/-- What ends a statement still does after a part of it has been read. -/
theorem EndsStatement.of_suffix (h : EndsStatement xs) (hrest : rest <:+ xs) (hne : rest ≠ []) :
    EndsStatement rest := by
  obtain ⟨ws, rfl⟩ := hrest
  obtain ⟨x, hx, ht⟩ := h
  rw [List.getLast?_append_of_ne_nil ws hne] at hx
  exact ⟨x, hx, ht⟩

/-- If the first one is a separator, then others stand behind it. -/
theorem EndsStatement.of_separator {x : Lexeme Token} (h : EndsStatement (x :: xs))
    (hx : x.token = .separator) : EndsStatement xs := by
  refine h.of_suffix (List.suffix_cons x xs) ?_
  rintro rfl
  obtain ⟨y, hy, ht⟩ := h
  obtain rfl := Option.some.inj hy
  exact ht hx

/-- What follows a statement, given what is read of fewer tokens. -/
theorem result_moreItems_iff (hxs : xs ≠ [] → EndsStatement xs)
    (hys : ys.map Lexeme.token = xs.map Lexeme.token ++ [.separator]) {k l : Nat}
    (hitems : ∀ us vs : List (Lexeme Token), us.length < xs.length → EndsStatement us →
      vs.map Lexeme.token = us.map Lexeme.token ++ [.separator] → ∀ as : List Statement,
        (result (Reader.items (statement m) separator k) us = some (as, []) ↔
          result (Reader.items (statement n) separator l) vs = some (as, [])))
    (as : List Statement) :
    result (Reader.moreItems (statement m) separator (k + 1)) xs = some (as, []) ↔
      result (Reader.moreItems (statement n) separator (l + 1)) ys = some (as, []) := by
  cases xs with
  | nil =>
      obtain ⟨y, more, rfl, hy, hmore⟩ := List.map_eq_cons_iff.1 hys
      obtain rfl := List.map_eq_nil_iff.1 hmore
      rw [Reader.result_moreItems_of_none rfl, Reader.result_moreItems_succ,
        result_separator_cons hy]
      dsimp only
      rw [result_statement_nil]
  | cons x xs =>
      obtain ⟨y, ys, rfl, hy, hmore⟩ := List.map_eq_cons_iff.1 hys
      by_cases hx : x.token = .separator
      · rw [Reader.result_moreItems_eq_items, Reader.result_moreItems_eq_items,
          result_separator_cons hx, result_separator_cons (hy.trans hx)]
        refine hitems xs ys (by simp) ((hxs (List.cons_ne_nil x xs)).of_separator hx) hmore as
      · rw [Reader.result_moreItems_of_none (result_separator_eq_none hx),
          Reader.result_moreItems_of_none (result_separator_eq_none (hy ▸ hx))]
        simp

private theorem result_items_iff (hxs : EndsStatement xs)
    (hys : ys.map Lexeme.token = xs.map Lexeme.token ++ [.separator]) {k l : Nat}
    (hm : xs.length < m) (hn : xs.length < n) (hk : xs.length < k) (hl : xs.length < l)
    (as : List Statement) :
    result (Reader.items (statement m) separator k) xs = some (as, []) ↔
      result (Reader.items (statement n) separator l) ys = some (as, []) := by
  induction k generalizing l xs ys as with
  | zero => exact absurd hk (Nat.not_lt_zero _)
  | succ k ih =>
      obtain ⟨l, rfl⟩ : ∃ i, l = i + 1 := ⟨l - 1, by omega⟩
      have hstatement : Alike (xs.length + 1) 1 [.separator] (statement m) (statement n) :=
        alike_statement (fun _ h => List.mem_singleton.1 h) hm hn
      have hne : ys ≠ [] := by
        rintro rfl
        exact absurd hys (by simp)
      rw [Reader.result_items, Reader.result_items]
      rcases hstatement xs ys (Nat.lt_succ_self _) hys with ⟨hx, hy⟩ |
        ⟨a, rest, others, hx, hy, hleaves⟩
      · simp [hx, hy, hxs.ne_nil, hne]
      · have hlength := hleaves.length
        have hmore := result_moreItems_iff (m := m) (n := n) (k := k) (l := l)
          (fun h => hxs.of_suffix hleaves.suffix h) hleaves.tokens fun us vs hus hends hvs as =>
            ih hends hvs (by omega) (by omega) (by omega) (by omega) as
        rw [hx, hy]
        simp only [Option.map_eq_some_iff, Prod.exists, Prod.mk.injEq]
        constructor
        · rintro ⟨bs, last, hbs, rfl, rfl⟩
          exact ⟨bs, [], (hmore bs).1 hbs, rfl, rfl⟩
        · rintro ⟨bs, last, hbs, rfl, rfl⟩
          exact ⟨bs, [], (hmore bs).2 hbs, rfl, rfl⟩

/-- A separator at the end makes no difference to a code block. -/
theorem result_block_append_iff (hxs : EndsStatement xs)
    (hys : ys.map Lexeme.token = xs.map Lexeme.token ++ [.separator]) (hm : xs.length < m)
    (hn : xs.length < n) {b : Block} :
    result (block m) xs = some (b, []) ↔ result (block n) ys = some (b, []) := by
  obtain ⟨x, xs, rfl⟩ := List.exists_cons_of_ne_nil hxs.ne_nil
  obtain ⟨y, ys, rfl, hy, hmore⟩ := List.map_eq_cons_iff.1 hys
  rw [block, block, Reader.result_bind, Reader.result_bind, Reader.result_optional,
    Reader.result_optional]
  by_cases hx : x.token = .separator
  · rw [result_separator_cons hx, result_separator_cons (hy.trans hx)]
    rw [List.length_cons] at hm hn
    exact result_items_iff (hxs.of_separator hx) hmore (by omega) (by omega) (by omega) (by omega) b
  · rw [result_separator_eq_none hx, result_separator_eq_none (hy ▸ hx)]
    exact result_items_iff hxs hys hm hn hm hn b

end InfraGraph.Block.Grammar
