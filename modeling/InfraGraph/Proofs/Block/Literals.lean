import InfraGraph.Block.Grammar
import InfraGraph.Proofs.Reading.Gives
import InfraGraph.Proofs.Value.WellFormed

/-!
# The literals of code blocks

An expression may hold any value as a literal. Those that are read from a text hold simple ones
only, since lists and maps are read as expressions of their own; so all their literals are
well-formed.

## Main results

* `Grammar.gives_expression` — by induction on the bound, level by level.
* `read_wellFormed` — the statements of a text.
-/

namespace InfraGraph.Block

open InfraGraph.Reading

mutual

/-- The literals in an expression are well-formed values. -/
def Expr.WellFormed : Expr → Prop
  | .literal v => v.WellFormed
  | .name _ => True
  | .list items => Expr.WellFormedItems items
  | .map entries => Expr.WellFormedEntries entries
  | .unary _ operand => operand.WellFormed
  | .binary _ left right => left.WellFormed ∧ right.WellFormed
  | .conditional condition yes no => condition.WellFormed ∧ yes.WellFormed ∧ no.WellFormed
  | .field base _ => base.WellFormed
  | .index base place => base.WellFormed ∧ place.WellFormed
  | .call callee arguments => callee.WellFormed ∧ Expr.WellFormedItems arguments

/-- The literals in expressions are well-formed values. -/
def Expr.WellFormedItems : List Expr → Prop
  | [] => True
  | e :: rest => e.WellFormed ∧ Expr.WellFormedItems rest

/-- The literals in the entries of a map are well-formed values. -/
def Expr.WellFormedEntries : List (String × Expr) → Prop
  | [] => True
  | (_, e) :: rest => e.WellFormed ∧ Expr.WellFormedEntries rest

end

/-- The literals in a statement are well-formed values. -/
def Statement.WellFormed : Statement → Prop
  | .assign _ e => e.WellFormed
  | .expr e => e.WellFormed

namespace Expr

private theorem wellFormedItems_iff (es : List Expr) :
    WellFormedItems es ↔ ∀ e ∈ es, e.WellFormed := by
  induction es with
  | nil => simp [WellFormedItems]
  | cons e rest ih => simp [WellFormedItems, ih]

private theorem wellFormedEntries_iff (es : List (String × Expr)) :
    WellFormedEntries es ↔ ∀ e ∈ es, e.2.WellFormed := by
  induction es with
  | nil => simp [WellFormedEntries]
  | cons e rest ih => simp [WellFormedEntries, ih]

end Expr

/-! ## Readers -/

namespace Grammar

open Reader (Gives)

section

variable {α : Type} {Q : α → Prop} {p : Reader Token α}

private theorem gives_symbol (s : Symbol) : Gives (symbol s) fun ts _ => ts = [.symbol s] := by
  refine .lexeme fun x a htake => ?_
  split at htake
  · split at htake
    · rename_i t hx ht
      rw [hx, ht]
    · cases htake
  · cases htake

private theorem gives_separator : Gives separator fun ts _ => ts = [.separator] := by
  refine .lexeme fun x a htake => ?_
  split at htake
  · rename_i hx
    rw [hx]
  · cases htake

private theorem gives_name : Gives name fun _ _ => True := .lexeme fun _ _ _ => trivial

private theorem gives_between (opening closing : Symbol) (hp : Gives p fun _ a => Q a) :
    Gives (between opening closing p) fun _ a => Q a :=
  .bind (gives_symbol opening) fun _ _ _ => hp.bind fun _ _ ha =>
    (gives_symbol closing).bind fun _ _ _ => .pure ha

end

/-- What the reader gives has well-formed literals. -/
abbrev GivesWellFormed (e : Reader Token Expr) : Prop := Gives e fun _ a => a.WellFormed

private theorem gives_literal : GivesWellFormed literal := by
  refine .lexeme fun x a htake => ?_
  split at htake
  case h_7 => cases htake
  all_goals
    cases htake
    exact trivial

private theorem gives_oneOf (ops : List (Symbol × BinaryOp)) :
    Gives (oneOf ops) fun _ _ => True := by
  induction ops with
  | nil => rintro _ _ _ ⟨⟩
  | cons op ops ih => exact .orElse ((gives_symbol op.1).bind fun _ _ _ => .pure trivial) ih

section

variable {e : Reader Token Expr} (he : GivesWellFormed e) (n : Nat)
include he

private theorem gives_conditional : GivesWellFormed (conditional e) :=
  (gives_symbol .ifWord).bind fun _ _ _ => he.bind fun _ _ hcondition =>
    (gives_symbol .thenWord).bind fun _ _ _ => he.bind fun _ _ hyes =>
      (gives_symbol .elseWord).bind fun _ _ _ => he.bind fun _ _ hno =>
        .pure ⟨hcondition, hyes, hno⟩

private theorem gives_expressions : Gives (expressions e n) fun _ es => Expr.WellFormedItems es :=
  (he.items_forall (gives_symbol .comma) n).mono fun _ es h =>
    (Expr.wellFormedItems_iff es).2 h

private theorem gives_entry : Gives (entry e) fun _ a => a.2.WellFormed :=
  (Gives.lexeme (L := fun _ _ => True) fun _ _ _ => trivial).bind fun _ _ _ =>
    (gives_symbol .colon).bind fun _ _ _ => he.bind fun _ _ ha => .pure ha

private theorem gives_list :
    GivesWellFormed (Expr.list <$> between .bracketOpen .bracketClose (expressions e n)) :=
  (gives_between _ _ (gives_expressions he n)).map fun _ h => h

private theorem gives_map : GivesWellFormed
    (Expr.map <$> between .braceOpen .braceClose (Reader.items (entry e) (symbol .comma) n)) :=
  (gives_between _ _ ((gives_entry he).items_forall (gives_symbol .comma) n)).map fun es h =>
    (Expr.wellFormedEntries_iff es).2 h

private theorem gives_atom : GivesWellFormed (atom e n) :=
  gives_literal.orElse ((gives_conditional he).orElse
    ((gives_name.map fun _ _ => trivial).orElse ((gives_list he n).orElse
      ((gives_map he n).orElse (gives_between _ _ he)))))

/-- What stands behind an operand has well-formed literals. -/
def Postfix.WellFormed : Postfix → Prop
  | .field _ => True
  | .index place => place.WellFormed
  | .call arguments => Expr.WellFormedItems arguments

private theorem gives_behind : Gives (behind e n) fun _ x => Postfix.WellFormed x := by
  have hfield : Gives (do symbol .dot; Postfix.field <$> name) fun _ x => x.WellFormed :=
    (gives_symbol .dot).bind fun _ _ _ => gives_name.map fun _ _ => trivial
  have hindex : Gives (Postfix.index <$> between .bracketOpen .bracketClose e)
      fun _ x => x.WellFormed := (gives_between _ _ he).map fun _ h => h
  have hcall : Gives (Postfix.call <$> between .parenOpen .parenClose (expressions e n))
      fun _ x => x.WellFormed := (gives_between _ _ (gives_expressions he n)).map fun _ h => h
  exact hfield.orElse (hindex.orElse hcall)

private theorem gives_access : GivesWellFormed (access e n) := by
  refine (gives_atom he n).bind fun _ base hbase => ?_
  refine ((gives_behind he n).many_forall n).bind fun _ more hmore => .pure ?_
  have happly : ∀ x ∈ more, ∀ a : Expr, a.WellFormed → (x.applyTo a).WellFormed := by
    intro x hx a ha
    have hx := hmore x hx
    cases x with
    | field text => exact ha
    | index place => exact ⟨ha, hx⟩
    | call arguments => exact ⟨ha, hx⟩
  exact List.foldlRecOn more Postfix.applyTo hbase fun a ha x hx => happly x hx a ha

private theorem gives_operand : GivesWellFormed (operand e n) := by
  have hop : Gives ((do symbol .minus; return .neg) <|> (do symbol .bang; return .not) :
      Reader Token UnaryOp) fun _ _ => True :=
    ((gives_symbol .minus).bind fun _ _ _ => .pure trivial).orElse
      ((gives_symbol .bang).bind fun _ _ _ => .pure trivial)
  refine (hop.many_forall n).bind fun _ ops _ => ?_
  refine (gives_access he n).bind fun _ base hbase => .pure ?_
  exact List.foldrRecOn ops Expr.unary hbase fun a ha op _ => ha

private theorem gives_level (ops : List (Symbol × BinaryOp)) : GivesWellFormed (level ops n e) := by
  have hright : Gives (do let op ← oneOf ops; let right ← e; return (op, right)) fun _ r =>
      r.2.WellFormed := (gives_oneOf ops).bind fun _ _ _ => he.bind fun _ _ ha => .pure ha
  refine he.bind fun _ first hfirst => ?_
  refine (hright.many_forall n).bind fun _ more hmore => .pure ?_
  exact List.foldlRecOn more (fun left r => Expr.binary r.1 left r.2) hfirst fun _ ha r hr =>
    ⟨ha, hmore r hr⟩

private theorem gives_levels (ls : List (List (Symbol × BinaryOp))) :
    GivesWellFormed (ls.foldl (fun p ops => level ops n p) e) := by
  induction ls generalizing e with
  | nil => exact he
  | cons ops ls ih => exact ih (gives_level he n ops)

end

/-- Every expression that is read has well-formed literals. -/
theorem gives_expression (n : Nat) : GivesWellFormed (expression n) := by
  induction n with
  | zero => rintro _ _ _ ⟨⟩
  | succ n ih => exact gives_levels (gives_operand ih n) n levels

private theorem gives_statement (n : Nat) : Gives (statement n) fun _ s => s.WellFormed := by
  have hassign : Gives (do
      let target ← name
      symbol .assign
      let e ← expression n
      return Statement.assign target e) fun _ s => s.WellFormed :=
    gives_name.bind fun _ _ _ => (gives_symbol .assign).bind fun _ _ _ =>
      (gives_expression n).bind fun _ _ he => .pure he
  exact hassign.orElse ((gives_expression n).map fun _ h => h)

private theorem gives_block (n : Nat) : Gives (block n) fun _ b => ∀ s ∈ b, s.WellFormed :=
  (gives_separator.optional (M := fun _ _ => True) (fun _ _ _ => trivial) trivial).bind
    fun _ _ _ => (gives_statement n).items_forall gives_separator n

end Grammar

/-- The literals of a code block that is read from a text are well-formed. -/
theorem read_wellFormed {text : List Char} {b : Block} (h : read text = .ok b) :
    ∀ s ∈ b, s.WellFormed := by
  unfold read at h
  cases hxs : Token.lexemes text with
  | error errors =>
      rw [hxs] at h
      cases h
  | ok xs =>
      rw [hxs] at h
      obtain ⟨_, _, hb⟩ := Grammar.gives_block _ xs b [] (Reader.readAll_eq_ok_iff.1 h)
      exact hb

end InfraGraph.Block
