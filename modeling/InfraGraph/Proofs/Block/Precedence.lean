import InfraGraph.Block.Grammar
import InfraGraph.Proofs.Block.Writing
import InfraGraph.Proofs.Reading.Takes
import Mathlib.Tactic.IntervalCases

/-!
# Reading expressions by precedence

Every level of the grammar reads an operand of the next level and goes on with operators of its own,
which it applies from the left. How far it goes depends on what follows: the grip of a token is the
tightness of the level that goes on with it. Tokens that stand for an expression of some tightness
are read, and left alone by every level that is not looser than the grip of what follows; that is
the invariant `Reads`, carried through the expression from the inside to the outside.

## Main results

* `Reads.operandTokens` — parentheses make the tokens of an operand as tight as expected.
* `reads_tokens` — the tokens of an expression are read as this expression.
* `takes_expression` — so they are where nothing follows that goes on with it.
-/

namespace InfraGraph.Block

open Reading (Reader Lexeme moreTokens)
open Reading.Reader (Takes Refuses Continues result foldMany)

/-! ## Grip -/

/-- The tightness of the level that goes on with a symbol; zero if there is none. -/
def Symbol.grip : Symbol → Nat
  | dot | bracketOpen | parenOpen => 8
  | star | slash | percent => 6
  | plus | minus => 5
  | atMost | atLeast | less | greater => 4
  | equal | unequal => 3
  | both => 2
  | either => 1
  | _ => 0

/-- The grip of a token. -/
def Token.grip : Token → Nat
  | symbol s => s.grip
  | _ => 0

namespace Grammar

/-- The grip of what follows. -/
def gripOf : List (Lexeme Token) → Nat
  | [] => 0
  | x :: _ => x.token.grip

variable {α : Type} {n k : Nat} {ts : List Token} {rest : List (Lexeme Token)}

/-! ## Single tokens -/

theorem takes_symbol (s : Symbol) : Takes (symbol s) [.symbol s] (fun _ => True) rest :=
  .lexeme fun x hx => ⟨(), by simp [hx], trivial⟩

theorem refuses_symbol {s : Symbol} {t : Token} (ht : t ≠ .symbol s) :
    Refuses (symbol s) (t :: ts) rest := by
  refine .lexeme fun x hx u => ?_
  cases t with
  | symbol r =>
      have hr : r ≠ s := fun h => ht (congrArg Token.symbol h)
      simp [hx, hr]
  | _ => simp [hx]

theorem takes_name (text : String) : Takes name [.name text] (· = text) rest :=
  .lexeme fun x hx => ⟨text, by simp [hx], rfl⟩

theorem refuses_name (s : Symbol) : Refuses name (.symbol s :: ts) rest :=
  .lexeme fun x hx u => by simp [hx]

theorem refuses_literal {s : Symbol}
    (hs : s ≠ .trueWord ∧ s ≠ .falseWord ∧ s ≠ .nullWord) :
    Refuses literal (.symbol s :: ts) rest := by
  refine .lexeme fun x hx u => ?_
  cases s <;> simp_all

private theorem takes_between {p : Reader Token α} {opening closing : Symbol} {a : α}
    (hp : ∀ x : Lexeme Token, x.token = .symbol closing → Takes p ts (· = a) (x :: rest)) :
    Takes (between opening closing p) (.symbol opening :: (ts ++ [.symbol closing])) (· = a)
      rest := by
  refine Takes.bind_cons (fun _ => takes_symbol opening) fun _ _ => ?_
  refine .bind (fun ws hws => ?_) fun b hb => (takes_symbol closing).bind_pure fun _ _ => hb
  obtain ⟨x, more, rfl, hx, hmore⟩ := List.map_eq_cons_iff.1 hws
  rw [List.map_eq_nil_iff.1 hmore]
  exact hp x hx

/-! ## Levels -/

/-- The operators of a level of some tightness. -/
def operatorsAt (k : Nat) : List (Symbol × BinaryOp) := levels.getD (6 - k) []

/-- Reads an expression that is at least as tight as `k`. -/
def readerAt (e : Reader Token Expr) (n k : Nat) : Reader Token Expr :=
  (levels.take (7 - k)).foldl (fun p ops => level ops n p) (operand e n)

/-- Reads an operator of some tightness and its right operand. -/
def stepAt (e : Reader Token Expr) (n k : Nat) : Reader Token (BinaryOp × Expr) := do
  let op ← oneOf (operatorsAt k)
  let right ← readerAt e n (k + 1)
  return (op, right)

/-- Applies an operator and its right operand to the left one. -/
def applyOperator (left : Expr) (r : BinaryOp × Expr) : Expr := .binary r.1 left r.2

/-- An expression is read from the weakest level on, with a smaller expression inside. -/
theorem expression_succ (n : Nat) : expression (n + 1) = readerAt (expression n) n 1 := rfl

/-- A level of binary operators reads operands of the next level and folds them from the left. -/
theorem readerAt_eq (e : Reader Token Expr) (n : Nat) (hpos : 1 ≤ k) (hk : k ≤ 6) :
    readerAt e n k =
      readerAt e n (k + 1) >>= fun first => foldMany (stepAt e n k) applyOperator n first := by
  interval_cases k <;> rfl

private theorem grip_of_mem_operatorsAt (hpos : 1 ≤ k) (hk : k ≤ 6) {r : Symbol × BinaryOp}
    (hr : r ∈ operatorsAt k) : r.1.grip = k := by
  have hall : ∀ j ∈ [1, 2, 3, 4, 5, 6], ∀ r ∈ operatorsAt j, r.1.grip = j := by decide
  exact hall k (by simp; omega) r hr

private theorem refuses_oneOf {t : Token} {ops : List (Symbol × BinaryOp)}
    (ht : ∀ r ∈ ops, t ≠ .symbol r.1) : Refuses (oneOf ops) (t :: ts) rest := by
  induction ops with
  | nil => exact fun _ _ => rfl
  | cons r ops ih =>
      exact .orElse (.bind (refuses_symbol (ht r List.mem_cons_self)))
        (ih fun s hs => ht s (List.mem_cons_of_mem r hs))

/-- No operator of a level is read where something of another grip follows. -/
theorem result_stepAt_eq_none {e : Reader Token Expr} (hpos : 1 ≤ k) (hk : k ≤ 6)
    (hgrip : gripOf rest ≠ k) : result (stepAt e n k) rest = none := by
  have hnone : result (oneOf (operatorsAt k)) rest = none := by
    cases rest with
    | nil =>
        interval_cases k <;> rfl
    | cons x more =>
        refine Refuses.cons (refuses_oneOf fun r hr hx => hgrip ?_)
        rw [gripOf, hx, Token.grip, grip_of_mem_operatorsAt hpos hk hr]
  rw [stepAt, Reader.result_bind, hnone]
  rfl

private theorem takes_oneOf (op : BinaryOp) :
    Takes (oneOf (operatorsAt op.tightness)) [.symbol op.symbol] (· = op) rest := by
  intro ws hws
  obtain ⟨x, more, rfl, hx, hmore⟩ := List.map_eq_cons_iff.1 hws
  rw [List.map_eq_nil_iff.1 hmore]
  refine ⟨op, ?_, rfl⟩
  cases op <;>
    simp [operatorsAt, levels, BinaryOp.tightness, oneOf, symbol, hx, BinaryOp.symbol]

/-- A reader of tight expressions reads looser ones where nothing follows that a level between them
goes on with. -/
theorem takes_readerAt {e : Reader Token Expr} {a : Expr} {j : Nat}
    (hp : Takes (readerAt e n j) ts (· = a) rest) (hgrip : gripOf rest < k) (hpos : 1 ≤ k)
    (hk : k ≤ j) (hj : j ≤ 7) (hn : rest.length ≤ n) :
    Takes (readerAt e n k) ts (· = a) rest := by
  obtain ⟨d, hd⟩ := Nat.exists_eq_add_of_le hk
  induction d generalizing k with
  | zero =>
      obtain rfl : j = k := by omega
      exact hp
  | succ d ih =>
      have hnext : Takes (readerAt e n (k + 1)) ts (· = a) rest :=
        ih (by omega) (by omega) (by omega) (by omega)
      rw [readerAt_eq e n hpos (by omega)]
      exact (Continues.of_takes hnext hn).takes (result_stepAt_eq_none hpos (by omega) (by omega))

private theorem refuses_readerAt {e : Reader Token Expr} (hp : Refuses (operand e n) ts rest)
    (hpos : 1 ≤ k) (hk : k ≤ 7) : Refuses (readerAt e n k) ts rest := by
  obtain ⟨d, hd⟩ := Nat.exists_eq_add_of_le hk
  induction d generalizing k with
  | zero =>
      obtain rfl : k = 7 := by omega
      exact hp
  | succ d ih =>
      rw [readerAt_eq e n hpos (by omega)]
      exact .bind (ih (by omega) (by omega) (by omega))

/-! ## Operands -/

/-- Reads an operator before an operand. -/
def unaryOperator : Reader Token UnaryOp :=
  (do symbol .minus; return .neg) <|> (do symbol .bang; return .not)

/-- Reads an operand with at most so many operators before it. -/
def prefixedBy (e : Reader Token Expr) (n m : Nat) : Reader Token Expr := do
  let ops ← Reader.many unaryOperator m
  let base ← access e n
  return ops.foldr Expr.unary base

private theorem operand_eq (e : Reader Token Expr) (n : Nat) : operand e n = prefixedBy e n n := rfl

/-- The tokens begin, and not with an operator. -/
def BeginsClosed (ts : List Token) : Prop :=
  ∃ t more, ts = t :: more ∧ t ≠ .symbol .minus ∧ t ≠ .symbol .bang

private theorem takes_unaryOperator (op : UnaryOp) :
    Takes unaryOperator [.symbol op.symbol] (· = op) rest := by
  cases op with
  | neg => exact .orElse_left ((takes_symbol .minus).bind_pure fun _ _ => rfl)
  | not =>
      exact .orElse_right (.bind (refuses_symbol (by simp [UnaryOp.symbol])))
        ((takes_symbol .bang).bind_pure fun _ _ => rfl)

theorem refuses_unaryOperator (hts : BeginsClosed ts) : Refuses unaryOperator ts rest := by
  obtain ⟨t, more, rfl, hminus, hbang⟩ := hts
  exact .orElse (.bind (refuses_symbol hminus)) (.bind (refuses_symbol hbang))

/-- Where no unary operator stands, an access is read. -/
theorem result_prefixedBy_of_none {e : Reader Token Expr} {xs : List (Lexeme Token)}
    (hxs : result unaryOperator xs = none) (m : Nat) :
    result (prefixedBy e n m) xs = result (access e n) xs := by
  rw [prefixedBy, Reader.result_bind, Reader.result_many_of_none hxs, Option.bind_some,
    Reader.result_bind]
  cases result (access e n) xs with
  | none => rfl
  | some r => rfl

private theorem takes_prefixedBy_of_access {e : Reader Token Expr} {a : Expr}
    (hts : BeginsClosed ts) (hp : Takes (access e n) ts (· = a) rest) (m : Nat) :
    Takes (prefixedBy e n m) ts (· = a) rest := by
  intro ws hws
  rw [result_prefixedBy_of_none (refuses_unaryOperator hts ws hws)]
  exact hp ws hws

private theorem takes_prefixedBy_unary {e : Reader Token Expr} {a : Expr} (op : UnaryOp) {m : Nat}
    (hp : Takes (prefixedBy e n m) ts (· = a) rest) :
    Takes (prefixedBy e n (m + 1)) (.symbol op.symbol :: ts) (· = .unary op a) rest := by
  intro ws hws
  obtain ⟨x, more, rfl, hx, hmore⟩ := List.map_eq_cons_iff.1 hws
  have htakes : Takes unaryOperator [.symbol op.symbol] (· = op) (more ++ rest) :=
    takes_unaryOperator op
  obtain ⟨_, hop, rfl⟩ := htakes [x] (by simp [hx])
  obtain ⟨_, hresult, rfl⟩ := hp more hmore
  refine ⟨_, ?_, rfl⟩
  rw [prefixedBy, Reader.result_bind] at hresult ⊢
  rw [List.singleton_append] at hop
  rw [List.cons_append, Reader.result_many_succ, hop]
  dsimp only
  cases hmany : result (Reader.many unaryOperator m) (more ++ rest) with
  | none =>
      rw [hmany] at hresult
      cases hresult
  | some r =>
      rw [hmany, Option.bind_some, Reader.result_bind] at hresult
      rw [Option.map_some, Option.bind_some, Reader.result_bind]
      dsimp only at hresult ⊢
      cases hbase : result (access e n) r.2 with
      | none =>
          rw [hbase] at hresult
          cases hresult
      | some s =>
          rw [hbase] at hresult
          cases hresult
          rfl

/-! ## Access -/

/-- An access ends where what follows does not grip tightly enough. -/
theorem result_behind_eq_none {e : Reader Token Expr} (hgrip : gripOf rest ≤ 7) :
    result (behind e n) rest = none := by
  cases rest with
  | nil => rfl
  | cons x more =>
      have hne : ∀ s : Symbol, s.grip = 8 → x.token ≠ .symbol s := by
        intro s hs hx
        rw [gripOf, hx, Token.grip, hs] at hgrip
        omega
      exact Refuses.cons (.orElse (.bind (refuses_symbol (hne .dot rfl)))
        (.orElse (.map (.bind (refuses_symbol (hne .bracketOpen rfl))))
          (.map (.bind (refuses_symbol (hne .parenOpen rfl))))))

/-- An access goes on behind an atom. -/
theorem continues_access {e : Reader Token Expr} {a : Expr}
    (hp : Takes (atom e n) ts (· = a) rest) (hn : rest.length ≤ n) :
    Continues (access e n) (behind e n) Postfix.applyTo ts a rest :=
  .of_takes hp hn

/-! ## Atoms -/

theorem refuses_conditional {e : Reader Token Expr} {s : Symbol} (hs : s ≠ .ifWord) :
    Refuses (conditional e) (.symbol s :: ts) rest :=
  .bind (refuses_symbol (by simpa using hs))

/-- Nothing is read at a closing bracket. -/
theorem refuses_access {e : Reader Token Expr} {s : Symbol} (hs : s.closes = true) :
    Refuses (access e n) (.symbol s :: ts) rest := by
  have hne : s ≠ .trueWord ∧ s ≠ .falseWord ∧ s ≠ .nullWord ∧ s ≠ .ifWord ∧ s ≠ .bracketOpen ∧
      s ≠ .braceOpen ∧ s ≠ .parenOpen := by cases s <;> simp_all [Symbol.closes]
  obtain ⟨htrue, hfalse, hnull, hif, hbracket, hbrace, hparen⟩ := hne
  exact .bind (.orElse (refuses_literal ⟨htrue, hfalse, hnull⟩)
    (.orElse (refuses_conditional hif) (.orElse (.map (refuses_name s))
      (.orElse (.map (.bind (refuses_symbol (by simpa using hbracket))))
        (.orElse (.map (.bind (refuses_symbol (by simpa using hbrace))))
          (.bind (refuses_symbol (by simpa using hparen))))))))

/-- No expression begins with a closing bracket. -/
theorem refuses_expression {s : Symbol} (hs : s.closes = true) :
    Refuses (expression n) (.symbol s :: ts) rest := by
  cases n with
  | zero => exact fun _ _ => rfl
  | succ n =>
      have hbegin : BeginsClosed (.symbol s :: ts) :=
        ⟨.symbol s, ts, rfl, by cases s <;> simp_all [Symbol.closes],
          by cases s <;> simp_all [Symbol.closes]⟩
      rw [expression_succ]
      refine refuses_readerAt (fun ws hws => ?_) (by omega) (by omega)
      rw [operand_eq, result_prefixedBy_of_none (refuses_unaryOperator hbegin ws hws)]
      exact refuses_access hs ws hws

private theorem refuses_entry {e : Reader Token Expr} {s : Symbol} :
    Refuses (entry e) (.symbol s :: ts) rest :=
  .bind (.lexeme fun x hx u => by simp [hx])

/-- What stands between brackets, with commas. -/
theorem takes_listed {β : Type} {item : Reader Token β} (tokens : β → List Token)
    {opening closing : Symbol} (is : List β) (hclosing : closing.closes = true)
    (hend : ∀ rest, Refuses item [.symbol closing] rest)
    (hitem : ∀ i ∈ is, ∀ rest : List (Lexeme Token), (tokens i).length + rest.length < n →
      gripOf rest = 0 → Takes item (tokens i) (· = i) rest)
    (hn : (moreTokens (.symbol .comma) tokens is false).length + rest.length < n) :
    Takes (between opening closing (Reader.items item (symbol .comma) n))
      (.symbol opening :: ((moreTokens (.symbol .comma) tokens is false).tail ++
        [.symbol closing])) (· = is) rest := by
  refine takes_between fun x hx => ?_
  have hend' : result item (x :: rest) = none := Refuses.cons (by rw [hx]; exact hend rest)
  cases is with
  | nil => exact .items_nil hend'
  | cons i is =>
      have hstop : result (symbol .comma) (x :: rest) = none := by
        refine Refuses.cons ?_
        rw [hx]
        exact refuses_symbol (by cases closing <;> simp_all [Symbol.closes])
      have hgrip : gripOf (x :: rest) = 0 := by
        rw [gripOf, hx]
        cases closing <;> simp_all [Symbol.closes, Token.grip, Symbol.grip]
      have hcomma : ∀ y more, y.token = .symbol .comma → gripOf (y :: more) = 0 := by
        intro y more hy
        rw [gripOf, hy]
        rfl
      have hcount := Reading.length_le_length_moreTokens tokens (.symbol .comma) is false
      rw [Reading.moreTokens_cons, List.length_cons, List.length_append] at hn
      rw [Reading.moreTokens_cons, List.tail_cons]
      refine (Takes.items_cons tokens (fun rest => gripOf rest = 0) (n - 1)
        (R := fun i a => a = i) (fun _ => takes_symbol .comma)
        (fun j hj rest' hlength hrest => hitem j hj rest' (by omega) hrest) hcomma hgrip hstop
        hend' (by rw [List.length_append, List.length_cons]; omega) (by omega)).mono
          fun as has => ?_
      exact (List.forall₂_eq_eq_eq ▸ has.imp fun _ _ h => h.symm : i :: is = as).symm

/-! ## Reading by tightness -/

/-- Some tokens of a tightness are read as an expression, whatever follows that no looser level goes
on with. The tokens and what follows have to fit into the bound. -/
structure Reads (t : Nat) (ts : List Token) (a : Expr) : Prop where
  begins : 8 ≤ t → BeginsClosed ts
  access : 8 ≤ t → ∀ {n : Nat} {rest : List (Lexeme Token)}, ts.length + rest.length ≤ n →
    Continues (access (expression n) n) (behind (expression n) n) Postfix.applyTo ts a rest
  operand : 7 ≤ t → ∀ {n m : Nat} {rest : List (Lexeme Token)}, ts.length + rest.length ≤ n →
    ts.length + rest.length ≤ m → gripOf rest ≤ 7 →
      Takes (prefixedBy (expression n) n m) ts (· = a) rest
  level : ∀ {k : Nat}, 1 ≤ k → k ≤ 6 → k ≤ t → ∀ {n : Nat} {rest : List (Lexeme Token)},
    ts.length + rest.length ≤ n → gripOf rest ≤ k →
      Continues (readerAt (expression n) n k) (stepAt (expression n) n k) applyOperator ts a rest
  whole : ∀ {n : Nat} {rest : List (Lexeme Token)}, ts.length + rest.length ≤ n →
    gripOf rest = 0 → Takes (readerAt (expression n) n 1) ts (· = a) rest

namespace Reads

variable {t : Nat} {a : Expr}

/-- Levels looser than the tokens go on with what the tokens are read as. -/
theorem level_of_takes {e : Reader Token Expr} {j : Nat}
    (hp : Takes (readerAt e n j) ts (· = a) rest) (hpos : 1 ≤ k) (hk : k < j) (hj : j ≤ 7)
    (hgrip : gripOf rest ≤ k) (hn : rest.length ≤ n) :
    Continues (readerAt e n k) (stepAt e n k) applyOperator ts a rest := by
  rw [readerAt_eq e n hpos (by omega)]
  exact .of_takes (takes_readerAt hp (by omega) (by omega) hk hj hn) hn

/-- What is taken as an operand, and as an access if it is tight enough, is read at its tightness.
-/
theorem of_operand (hbegins : 8 ≤ t → BeginsClosed ts)
    (haccess : 8 ≤ t → ∀ {n : Nat} {rest : List (Lexeme Token)}, ts.length + rest.length ≤ n →
      Continues (Grammar.access (expression n) n) (behind (expression n) n) Postfix.applyTo ts a
        rest)
    (hoperand : ∀ {n m : Nat} {rest : List (Lexeme Token)}, ts.length + rest.length ≤ n →
      ts.length + rest.length ≤ m → gripOf rest ≤ 7 →
        Takes (prefixedBy (expression n) n m) ts (· = a) rest) : Reads t ts a where
  begins := hbegins
  access := haccess
  operand := fun _ => hoperand
  level := fun hpos hk _ _ _ hn hgrip =>
    level_of_takes (j := 7) (hoperand hn hn (by omega)) hpos (by omega) (by omega) hgrip (by omega)
  whole := fun hn hgrip =>
    takes_readerAt (j := 7) (hoperand hn hn (by omega)) (by omega) (by omega) (by omega) (by omega)
      (by omega)

/-- Tokens that no operator at the outside belongs to. -/
theorem of_access (hbegins : BeginsClosed ts)
    (haccess : ∀ {n : Nat} {rest : List (Lexeme Token)}, ts.length + rest.length ≤ n →
      Continues (Grammar.access (expression n) n) (behind (expression n) n) Postfix.applyTo ts a
        rest) : Reads 8 ts a :=
  of_operand (fun _ => hbegins) (fun _ => haccess) fun hn _ hgrip =>
    takes_prefixedBy_of_access hbegins ((haccess hn).takes (result_behind_eq_none hgrip)) _

/-- What is taken as an atom is read at the tightness of atoms. -/
theorem of_atom (hbegins : BeginsClosed ts)
    (hatom : ∀ {n : Nat} {rest : List (Lexeme Token)}, ts.length + rest.length ≤ n →
      Takes (atom (expression n) n) ts (· = a) rest) : Reads 8 ts a :=
  of_access hbegins fun hn => continues_access (hatom hn) (by omega)

/-- Tokens with an operator of some tightness at the outside. -/
theorem of_level (hpos : 1 ≤ t) (ht : t ≤ 6)
    (hlevel : ∀ {n : Nat} {rest : List (Lexeme Token)}, ts.length + rest.length ≤ n →
      gripOf rest ≤ t → Continues (readerAt (expression n) n t) (stepAt (expression n) n t)
        applyOperator ts a rest) : Reads t ts a where
  begins := fun h => absurd h (by omega)
  access := fun h => absurd h (by omega)
  operand := fun h => absurd h (by omega)
  level := by
    intro k hk _ hkt n rest hn hgrip
    rcases Nat.eq_or_lt_of_le hkt with rfl | hlt
    · exact hlevel hn hgrip
    · have htakes := (hlevel hn (by omega)).takes (result_stepAt_eq_none hpos ht (by omega))
      exact level_of_takes htakes hk hlt (by omega) hgrip (by omega)
  whole := by
    intro n rest hn hgrip
    have htakes := (hlevel hn (by omega)).takes (result_stepAt_eq_none hpos ht (by omega))
    exact takes_readerAt htakes (by omega) (by omega) (by omega) (by omega) (by omega)

/-- The tokens are read by the level of some tightness that they have at least. -/
theorem takes (h : Reads t ts a) (hpos : 1 ≤ k) (hk : k ≤ 7) (hkt : k ≤ t)
    (hn : ts.length + rest.length ≤ n) (hgrip : gripOf rest < k) :
    Takes (readerAt (expression n) n k) ts (· = a) rest := by
  rcases Nat.eq_or_lt_of_le hk with rfl | hlt
  · exact h.operand hkt hn hn (by omega)
  · exact (h.level hpos (by omega) hkt hn (by omega)).takes
      (result_stepAt_eq_none hpos (by omega) (by omega))

/-- Inside brackets the tokens are read as a whole. -/
theorem inside (h : Reads t ts a) (hn : ts.length + rest.length < n) (hgrip : gripOf rest = 0) :
    Takes (expression n) ts (· = a) rest := by
  obtain ⟨n, rfl⟩ : ∃ m, n = m + 1 := ⟨n - 1, by omega⟩
  rw [expression_succ]
  exact h.whole (by omega) hgrip

private theorem enclosed (h : Reads t ts a) : Reads 8 (Expr.enclosed ts) a := by
  refine of_atom ⟨_, _, rfl, by simp, by simp⟩ fun {n rest} hn => ?_
  rw [Expr.enclosed, List.length_cons, List.length_append, List.length_singleton] at hn
  refine .orElse_right (refuses_literal (by simp)) (.orElse_right (refuses_conditional (by simp))
    (.orElse_right (.map (refuses_name _)) (.orElse_right (.map (.bind (refuses_symbol (by simp))))
      (.orElse_right (.map (.bind (refuses_symbol (by simp)))) (takes_between fun x hx => ?_)))))
  exact h.inside (by rw [List.length_cons]; omega) (by rw [gripOf, hx]; rfl)

/-- Parentheses make the tokens of an operand as tight as expected. -/
theorem operandTokens (h : Reads t ts a) (hk : k ≤ 8) :
    ∃ t', k ≤ t' ∧ Reads t' (Expr.operandTokens k t ts) a := by
  unfold Expr.operandTokens
  split
  · rename_i hle
    exact ⟨t, hle, h⟩
  · exact ⟨8, hk, h.enclosed⟩

end Reads

/-! ## Expressions -/

theorem BeginsClosed.append (h : BeginsClosed ts) (us : List Token) : BeginsClosed (ts ++ us) := by
  obtain ⟨t, more, rfl, hne⟩ := h
  exact ⟨t, more ++ us, rfl, hne⟩

/-- Something stands behind a base that no operator at its outside belongs to. -/
theorem Reads.behind {base : Expr} {t : Nat} {us : List Token} {p : Postfix}
    (h : Reads t ts base) (hne : us ≠ [])
    (hbehind : ∀ {n : Nat} {rest : List (Lexeme Token)}, us.length + rest.length < n →
      Takes (Grammar.behind (expression n) n) us (· = p) rest) :
    Reads 8 (Expr.operandTokens Expr.closed t ts ++ us) (p.applyTo base) := by
  obtain ⟨t', ht', hbase⟩ := h.operandTokens (k := Expr.closed) (by simp [Expr.closed])
  have hbegins := hbase.begins ht'
  refine .of_access (hbegins.append us) fun {n rest} hn => ?_
  rw [List.length_append] at hn
  have hpos : 0 < (Expr.operandTokens Expr.closed t ts).length := by
    obtain ⟨x, more, hcons, -⟩ := hbegins
    rw [hcons, List.length_cons]
    omega
  refine .next (fun ws hws => hbase.access ht' ?_) (hbehind (by omega)) hne
  have hlength := congrArg List.length hws
  rw [List.length_map] at hlength
  rw [List.length_append]
  omega

private theorem takes_entry {e : Reader Token Expr} {entry : String × Expr}
    (hvalue : Takes e entry.2.tokens (· = entry.2) rest) :
    Takes (Grammar.entry e) (Expr.tokensOfEntry entry) (· = entry) rest := by
  refine Takes.bind_cons (P := (· = entry.1))
    (fun _ => .lexeme fun x hx => ⟨_, by simp [hx], rfl⟩) fun key hkey => ?_
  refine Takes.bind_cons (fun _ => takes_symbol .colon) fun _ _ => ?_
  refine hvalue.bind_pure fun value hv => ?_
  rw [hkey, hv]

private theorem reads_binary (op : BinaryOp) {left right : Expr}
    (hleft : Reads left.tightness left.tokens left)
    (hright : Reads right.tightness right.tokens right) :
    Reads op.tightness (Expr.binary op left right).tokens (.binary op left right) := by
  have hpos : 1 ≤ op.tightness := by cases op <;> simp [BinaryOp.tightness]
  have hle : op.tightness ≤ 6 := by cases op <;> simp [BinaryOp.tightness]
  obtain ⟨t, ht, hl⟩ := hleft.operandTokens (k := op.tightness) (by omega)
  obtain ⟨u, hu, hr⟩ := hright.operandTokens (k := op.tightness + 1) (by omega)
  refine .of_level hpos hle fun {n rest} hn hgrip => ?_
  rw [Expr.tokens, List.length_append, List.length_cons] at hn
  rw [Expr.tokens]
  change Continues _ _ applyOperator _ (applyOperator left (op, right)) _
  refine Continues.next (fun ws hws => ?_) ?_ (by simp)
  · have hlength := congrArg List.length hws
    rw [List.length_map, List.length_cons] at hlength
    refine hl.level hpos hle ht (by rw [List.length_append]; omega) ?_
    obtain ⟨x, more, rfl, hx, -⟩ := List.map_eq_cons_iff.1 hws
    rw [List.cons_append, gripOf, hx]
    cases op <;> simp [BinaryOp.symbol, Token.grip, Symbol.grip, BinaryOp.tightness]
  · refine Takes.bind_cons (fun _ => takes_oneOf op)
      fun o ho => ?_
    refine (hr.takes (by omega) (by omega) hu (by omega) (by omega)).bind_pure fun b hb => ?_
    rw [ho, hb]

private theorem reads_conditional {condition yes no : Expr}
    (hcondition : Reads condition.tightness condition.tokens condition)
    (hyes : Reads yes.tightness yes.tokens yes) (hno : Reads no.tightness no.tokens no) :
    Reads 0 (Expr.conditional condition yes no).tokens (.conditional condition yes no) where
  begins := fun h => absurd h (by omega)
  access := fun h => absurd h (by omega)
  operand := fun h => absurd h (by omega)
  level := fun hpos _ hk => absurd hk (by omega)
  whole := by
    intro n rest hn hgrip
    have hgrips : ∀ {s : Symbol} {us : List Token} {ws more : List (Lexeme Token)},
        s.grip = 0 → ws.map Lexeme.token = .symbol s :: us → gripOf (ws ++ more) = 0 := by
      intro s us ws more hs hws
      obtain ⟨x, _, rfl, hx, -⟩ := List.map_eq_cons_iff.1 hws
      rw [List.cons_append, gripOf, hx]
      exact hs
    rw [Expr.tokens] at hn ⊢
    simp only [List.length_cons, List.length_append] at hn
    have hatom : Takes (atom (expression n) n) (.symbol .ifWord :: (condition.tokens ++
        .symbol .thenWord :: (yes.tokens ++ .symbol .elseWord :: no.tokens)))
        (· = .conditional condition yes no) rest := by
      refine .orElse_right (refuses_literal (by simp)) (.orElse_left ?_)
      refine Takes.bind_cons (fun _ => takes_symbol .ifWord)
        fun _ _ => ?_
      refine .bind (P := (· = condition)) (fun ws hws => ?_) fun c hc => ?_
      · have hlength := congrArg List.length hws
        simp only [List.length_map, List.length_cons, List.length_append] at hlength
        exact hcondition.inside (by rw [List.length_append]; omega) (hgrips rfl hws)
      refine Takes.bind_cons (fun _ => takes_symbol .thenWord)
        fun _ _ => ?_
      refine .bind (P := (· = yes)) (fun ws hws => ?_) fun y hy => ?_
      · have hlength := congrArg List.length hws
        simp only [List.length_map, List.length_cons] at hlength
        exact hyes.inside (by rw [List.length_append]; omega) (hgrips rfl hws)
      refine Takes.bind_cons (fun _ => takes_symbol .elseWord)
        fun _ _ => ?_
      refine (hno.inside (by omega) hgrip).bind_pure fun o ho => ?_
      rw [hc, hy, ho]
    have haccess := (continues_access hatom (by omega)).takes
      (result_behind_eq_none (e := expression n) (n := n) (by omega))
    have hbegins : BeginsClosed (.symbol .ifWord :: (condition.tokens ++
        .symbol .thenWord :: (yes.tokens ++ .symbol .elseWord :: no.tokens))) :=
      ⟨_, _, rfl, by simp, by simp⟩
    exact takes_readerAt (j := 7) (takes_prefixedBy_of_access hbegins haccess n) (by omega)
      (by omega) (by omega) (by omega) (by omega)

private theorem reads_constant {v : Value} (hliteral : ∀ rest : List (Lexeme Token),
      Takes literal [Expr.constantToken v] (· = .literal v) rest)
    (hne : Expr.constantToken v ≠ .symbol .minus ∧ Expr.constantToken v ≠ .symbol .bang) :
    Reads 8 (Expr.literal v).tokens (.literal v) :=
  .of_atom ⟨_, _, rfl, hne⟩ fun _ => (hliteral _).orElse_left

private theorem reads_name (text : String) : Reads 8 (Expr.name text).tokens (.name text) := by
  refine .of_atom ⟨_, _, rfl, by simp, by simp⟩ fun _ => ?_
  have hliteral : ∀ rest : List (Lexeme Token), Refuses literal [.name text] rest :=
    fun _ => .lexeme fun x hx u => by simp [hx]
  have hconditional : ∀ (e : Reader Token Expr) (rest : List (Lexeme Token)),
      Refuses (conditional e) [.name text] rest :=
    fun _ _ => .bind (refuses_symbol (by simp))
  refine .orElse_right (hliteral _) (.orElse_right (hconditional _ _) (.orElse_left ?_))
  exact (takes_name text).map fun s hs => by rw [hs]

private theorem reads_list {items : List Expr}
    (hitems : ∀ e ∈ items, Reads e.tightness e.tokens e) :
    Reads 8 (Expr.list items).tokens (.list items) := by
  refine .of_atom ⟨_, _, rfl, by simp, by simp⟩ fun hn => ?_
  rw [Expr.tokens, Expr.itemTokens_eq] at hn ⊢
  refine .orElse_right (refuses_literal (by simp)) (.orElse_right (refuses_conditional (by simp))
    (.orElse_right (.map (refuses_name _)) (.orElse_left ?_)))
  refine (takes_listed Expr.tokens items rfl (fun _ => refuses_expression rfl)
    (fun e he _ hlength hgrip => (hitems e he).inside hlength hgrip) ?_).map fun as has => by
      rw [has]
  simp only [List.length_cons, List.length_append, List.length_tail, List.length_nil] at hn
  omega

private theorem reads_map {entries : List (String × Expr)}
    (hentries : ∀ entry ∈ entries, Reads entry.2.tightness entry.2.tokens entry.2) :
    Reads 8 (Expr.map entries).tokens (.map entries) := by
  refine .of_atom ⟨_, _, rfl, by simp, by simp⟩ fun hn => ?_
  rw [Expr.tokens, Expr.entryTokens_eq] at hn ⊢
  refine .orElse_right (refuses_literal (by simp)) (.orElse_right (refuses_conditional (by simp))
    (.orElse_right (.map (refuses_name _)) (.orElse_right (.map (.bind (refuses_symbol (by simp))))
      (.orElse_left ?_))))
  refine (takes_listed Expr.tokensOfEntry entries rfl (fun _ => refuses_entry)
    (fun entry hentry rest' hlength hgrip => takes_entry ?_) ?_).map fun as has => by rw [has]
  · rw [Expr.tokensOfEntry, List.length_cons, List.length_cons] at hlength
    exact (hentries entry hentry).inside (by omega) hgrip
  · simp only [List.length_cons, List.length_append, List.length_tail, List.length_nil] at hn
    omega

private theorem reads_unary (op : UnaryOp) {e : Expr} (he : Reads e.tightness e.tokens e) :
    Reads Expr.prefixed (Expr.unary op e).tokens (.unary op e) := by
  obtain ⟨t, ht, h⟩ := he.operandTokens (k := Expr.prefixed) (by simp [Expr.prefixed])
  refine .of_operand (fun h => absurd h (by simp [Expr.prefixed]))
    (fun h => absurd h (by simp [Expr.prefixed])) fun {n m rest} hn hm hgrip => ?_
  rw [Expr.tokens, List.length_cons] at hn hm
  obtain ⟨m, rfl⟩ : ∃ l, m = l + 1 := ⟨m - 1, by omega⟩
  exact takes_prefixedBy_unary op (h.operand ht (by omega) (by omega) hgrip)

private theorem reads_field {base : Expr} (text : String)
    (hbase : Reads base.tightness base.tokens base) :
    Reads 8 (Expr.field base text).tokens (.field base text) :=
  hbase.behind (p := .field text) (by simp) fun _ => .orElse_left
    (Takes.bind_cons (fun _ => takes_symbol .dot) fun _ _ =>
      (takes_name text).map fun s hs => by rw [hs])

private theorem reads_index {base place : Expr} (hbase : Reads base.tightness base.tokens base)
    (hplace : Reads place.tightness place.tokens place) :
    Reads 8 (Expr.index base place).tokens (.index base place) := by
  refine hbase.behind (p := .index place) (by simp) fun {n rest} hn => ?_
  simp only [List.length_cons, List.length_append, List.length_nil] at hn
  refine .orElse_right (.bind (refuses_symbol (by simp))) (.orElse_left ?_)
  refine (takes_between fun x hx => ?_).map fun s hs => by rw [hs]
  exact hplace.inside (by rw [List.length_cons]; omega) (by rw [gripOf, hx]; rfl)

private theorem reads_call {callee : Expr} {arguments : List Expr}
    (hcallee : Reads callee.tightness callee.tokens callee)
    (harguments : ∀ e ∈ arguments, Reads e.tightness e.tokens e) :
    Reads 8 (Expr.call callee arguments).tokens (.call callee arguments) := by
  rw [Expr.tokens, Expr.itemTokens_eq]
  refine hcallee.behind (p := .call arguments) (by simp) fun {n rest} hn => ?_
  simp only [List.length_cons, List.length_append, List.length_tail, List.length_nil] at hn
  refine .orElse_right (.bind (refuses_symbol (by simp)))
    (.orElse_right (.map (.bind (refuses_symbol (by simp)))) ?_)
  exact (takes_listed Expr.tokens arguments rfl (fun _ => refuses_expression rfl)
    (fun e he _ hlength hgrip => (harguments e he).inside hlength hgrip) (by omega)).map
      fun as has => by rw [has]

/-- The tokens of an expression are read as this expression. -/
theorem reads_tokens {a : Expr} (ha : a.Writable) : Reads a.tightness a.tokens a := by
  have htake : ∀ {v : Value} {t : Token}, Expr.constantToken v = t →
      (∀ span more, result literal (⟨t, span⟩ :: more) = some (.literal v, more)) →
        ∀ rest, Takes literal [Expr.constantToken v] (· = .literal v) rest := by
    rintro v t rfl hresult rest ws hws
    obtain ⟨⟨token, span⟩, more, rfl, rfl, hmore⟩ := List.map_eq_cons_iff.1 hws
    rw [List.map_eq_nil_iff.1 hmore]
    exact ⟨_, hresult span rest, rfl⟩
  induction ha with
  | null => exact reads_constant (htake rfl fun _ _ => rfl) (by simp [Expr.constantToken])
  | bool b =>
      cases b with
      | false => exact reads_constant (htake rfl fun _ _ => rfl) (by simp [Expr.constantToken])
      | true => exact reads_constant (htake rfl fun _ _ => rfl) (by simp [Expr.constantToken])
  | string s => exact reads_constant (htake rfl fun _ _ => rfl) (by simp [Expr.constantToken])
  | int _ => exact reads_constant (htake rfl fun _ _ => rfl) (by simp [Expr.constantToken])
  | name _ => exact reads_name _
  | list _ ih => exact reads_list ih
  | map _ ih => exact reads_map ih
  | unary op _ ih => exact reads_unary op ih
  | binary op _ _ ihleft ihright => exact reads_binary op ihleft ihright
  | conditional _ _ _ ihcondition ihyes ihno => exact reads_conditional ihcondition ihyes ihno
  | field _ _ ih => exact reads_field _ ih
  | index _ _ ihbase ihplace => exact reads_index ihbase ihplace
  | call _ _ ihcallee iharguments => exact reads_call ihcallee iharguments

/-- An expression is read where nothing follows that goes on with it. -/
theorem takes_expression {a : Expr} (ha : a.Writable)
    (hn : a.tokens.length + rest.length < n) (hgrip : gripOf rest = 0) :
    Takes (expression n) a.tokens (· = a) rest :=
  (reads_tokens ha).inside hn hgrip

end Grammar

end InfraGraph.Block
