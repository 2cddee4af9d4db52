import InfraGraph.Proofs.Graph.Snapshot
import InfraGraph.Proofs.Interpretation.CodeFree
import Mathlib.Data.List.Forall2

/-!
# What literals without code mean

A literal without code has its meaning by itself: a list means the list of what its items mean, and
an object a map that has each key at the place where it first occurs and the meaning of the value
that stands under it last. Constants are made by writing members into a map one by one, and
evaluation does the same with what it evaluates on the way; both come to this meaning.

## Main results

* `Entries.firstOccurrences_keys_ofList`, `Entries.get?_ofList` — keys and values after a list of
  writes.
* `Literal.means_constant` — the constant of a literal is what it means.
* `evaluate_means` — evaluation gives the same and leaves the subject alone.
-/

namespace InfraGraph

/-! ## Lists of writes -/

private theorem unseen_congr {α : Type} [DecidableEq α] {seen known : List α}
    (h : ∀ a, a ∈ seen ↔ a ∈ known) (items : List α) : unseen seen items = unseen known items := by
  rw [← eraseDups_filter_eq_unseen, ← eraseDups_filter_eq_unseen]
  exact congrArg List.eraseDups (List.filter_congr fun a _ => decide_eq_decide.2 (not_congr (h a)))

namespace Entries

variable {α : Type}

/-- New keys stand behind the old ones, each where it is first written. -/
theorem keys_extend (entries writes : Entries α) :
    keys (extend entries writes) = keys entries ++ unseen (keys entries) (keys writes) := by
  induction writes generalizing entries with
  | nil => simp [extend, unseen]
  | cons e rest ih =>
      rw [extend, List.foldl_cons, ← extend, ih, keys_insert, keys_cons, unseen]
      split
      · rfl
      · have hmem : ∀ key, key ∈ keys entries ++ [e.1] ↔ key ∈ e.1 :: keys entries := by
          simp [or_comm]
        rw [List.append_assoc, unseen_congr hmem]
        rfl

/-- The keys of a written map are those of the writes, each at its first occurrence. -/
theorem firstOccurrences_keys_ofList (writes : Entries α) :
    FirstOccurrences (keys writes) (keys (ofList writes)) := by
  have hkeys : keys (ofList writes) = (keys writes).eraseDups := by
    rw [ofList, keys_extend, keys_nil, List.nil_append, eraseDups_eq_unseen]
  rw [hkeys]
  exact firstOccurrences_eraseDups (keys writes)

private theorem get?_extend_of_notMem {entries writes : Entries α} {key : String}
    (h : key ∉ keys writes) : get? (extend entries writes) key = get? entries key := by
  induction writes generalizing entries with
  | nil => rfl
  | cons e rest ih =>
      rw [keys_cons, List.mem_cons, not_or] at h
      rw [extend, List.foldl_cons, ← extend, ih h.2, get?_insert, if_neg (Ne.symm h.1)]

/-- A key has the value that is written last. -/
theorem get?_ofList (before : Entries α) (key : String) (value : α) {after : Entries α}
    (h : key ∉ keys after) : get? (ofList (before ++ (key, value) :: after)) key = some value := by
  rw [ofList, extend, List.foldl_append, List.foldl_cons, ← extend, ← extend,
    get?_extend_of_notMem h, get?_insert_self]

end Entries

namespace Definition.Literal

/-! ## Meanings -/

/-- What a literal without code means. -/
inductive Means : Literal → Value → Prop where
  | string (s : String) : Means (.string s) (.string s)
  | int (n : Int64) : Means (.int n) (.int n)
  | float (x : Float) : Means (.float x) (.float x)
  | bool (b : Bool) : Means (.bool b) (.bool b)
  | list {items : List (Spanned Literal)} {values : List Value}
    (h : List.Forall₂ (fun item v => Means item.node v) items values) :
    Means (.list items) (.list values)
  /-- Each key stands where it first occurs, and has the value that it has last. -/
  | object {members : List (Spanned String × Spanned Literal)} {entries : Entries Value}
    (positions : FirstOccurrences (members.map fun m => m.1.node) (Entries.keys entries))
    (last : ∀ before name value after v, members = before ++ (name, value) :: after →
      name.node ∉ after.map (fun m => m.1.node) → Entries.get? entries name.node = some v →
      Means value.node v) :
    Means (.object members) (.map entries)

private theorem constantMembers_eq_extend (done : Entries Value)
    (members : List (Spanned String × Spanned Literal)) :
    constantMembers done members =
      Entries.extend done (members.map fun m => (m.1.node, m.2.node.constant)) := by
  induction members generalizing done with
  | nil => rfl
  | cons m rest ih =>
      obtain ⟨name, ⟨_, value⟩⟩ := m
      rw [constantMembers, ih]
      rfl

/-- The constant of an object is what its members make, written one after the other. -/
theorem constant_object (members : List (Spanned String × Spanned Literal)) :
    (object members).constant =
      .map (Entries.ofList (members.map fun m => (m.1.node, m.2.node.constant))) := by
  rw [constant, constantMembers_eq_extend]
  rfl

private theorem means_object {members : List (Spanned String × Spanned Literal)}
    (h : ∀ m ∈ members, Means m.2.node m.2.node.constant) :
    Means (.object members) (object members).constant := by
  rw [constant_object]
  refine .object ?_ ?_
  · have hkeys := Entries.firstOccurrences_keys_ofList
      (members.map fun m => (m.1.node, m.2.node.constant))
    rwa [Entries.keys, List.map_map] at hkeys
  · rintro before name value after v rfl hlast hv
    have hnotMem : name.node ∉
        Entries.keys (after.map fun m => (m.1.node, m.2.node.constant)) := by
      rwa [Entries.keys, List.map_map]
    rw [List.map_append, List.map_cons, Entries.get?_ofList _ _ _ hnotMem] at hv
    rw [← Option.some.inj hv]
    exact h (name, value) (by simp)

mutual

/-- A literal without code means its constant. -/
theorem means_constant : ∀ l : Literal, l.isCodeFree = true → l.Means l.constant
  | .string s, _ => .string s
  | .int n, _ => .int n
  | .float x, _ => .float x
  | .bool b, _ => .bool b
  | .code _, h => by simp [isCodeFree] at h
  | .list items, h => .list (means_constantItems items h)
  | .object members, h => means_object (means_constantMembers members h)

theorem means_constantItems : ∀ items : List (Spanned Literal), codeFreeItems items = true →
    List.Forall₂ (fun item v => Means item.node v) items (constantItems items)
  | [], _ => .nil
  | ⟨_, item⟩ :: rest, h => by
      rw [codeFreeItems, Bool.and_eq_true] at h
      exact .cons (means_constant item h.1) (means_constantItems rest h.2)

theorem means_constantMembers : ∀ members : List (Spanned String × Spanned Literal),
    codeFreeMembers members = true → ∀ m ∈ members, Means m.2.node m.2.node.constant
  | [], _ => List.forall_mem_nil _
  | (_, ⟨_, value⟩) :: rest, h => by
      rw [codeFreeMembers, Bool.and_eq_true] at h
      exact List.forall_mem_cons.2 ⟨means_constant value h.1, means_constantMembers rest h.2⟩

end

end Definition.Literal

namespace Interpretation

open Block (Surroundings Subject)
open Definition (Literal Spanned nowhere)

/-- Evaluating a literal without code succeeds, leaves the component and the event alone and gives
the constant of the literal, which is what it means. -/
theorem evaluate_means (around : Surroundings) (key : Keyword) (source : String) (l : Literal)
    (hfree : l.isCodeFree = true) :
    (∀ subject : Subject,
      (evaluate around key source l).run subject = (.ok l.constant, subject)) ∧
    l.Means l.constant := by
  refine ⟨fun subject => ?_, Literal.means_constant l hfree⟩
  rw [evaluate_eq_constant around key source l hfree]
  rfl

/-- An object with a repeated key, under which another such object stands last. -/
def repeatedKeys : Literal :=
  .object [(nowhere "a", nowhere (.int 1)), (nowhere "b", nowhere (.list [nowhere (.bool true)])),
    (nowhere "a", nowhere (.object
      [(nowhere "c", nowhere (.string "x")), (nowhere "c", nowhere (.string "y"))]))]

/-- The repeated keys keep their first places and take their last values. -/
theorem evaluate_means_repeated :
    repeatedKeys.isCodeFree = true ∧
      (evaluate ⟨Graph.empty, 2⟩ .data "web" repeatedKeys).run ⟨none, none⟩ =
        (.ok (.map [("a", .map [("c", .string "y")]), ("b", .list [.bool true])]),
          ⟨none, none⟩) := by
  have hfree : repeatedKeys.isCodeFree = true := rfl
  obtain ⟨hrun, -⟩ := evaluate_means ⟨Graph.empty, 2⟩ .data "web" repeatedKeys hfree
  exact ⟨hfree, hrun ⟨none, none⟩⟩

end Interpretation

end InfraGraph
