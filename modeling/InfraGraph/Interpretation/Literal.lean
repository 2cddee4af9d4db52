import InfraGraph.Definition.Basic
import InfraGraph.Value.Basic

/-!
# Literals as values

Most literals mean a value by themselves. A code block does not; where only constants are wanted it
counts as null.
-/

namespace InfraGraph.Definition.Literal

mutual

/-- The value that a literal means without evaluating anything. -/
def constant : Literal → Value
  | .string s => .string s
  | .int n => .int n
  | .float x => .float x
  | .bool b => .bool b
  | .code _ => .null
  | .list items => .list (constantItems items)
  | .object members => .map (constantMembers [] members)

/-- The values of the items of a list. -/
def constantItems : List (Spanned Literal) → List Value
  | [] => []
  | ⟨_, item⟩ :: rest => constant item :: constantItems rest

/-- A map with the values of members written into it in order. -/
def constantMembers (done : Entries Value) :
    List (Spanned String × Spanned Literal) → Entries Value
  | [] => done
  | (key, ⟨_, value⟩) :: rest =>
    constantMembers (Entries.insert done key.node (constant value)) rest

end

end InfraGraph.Definition.Literal
