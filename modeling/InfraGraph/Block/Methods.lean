import InfraGraph.Block.Operators
import InfraGraph.Block.Scope
import InfraGraph.Decimal.Read
import InfraGraph.Text.Case

/-!
# Functions and methods

What code blocks can call: a few functions, methods of values, look-ups in the graph, and the
methods by which a component or an event is decorated. A method checks the number of its arguments
first and then their types.
-/

namespace InfraGraph.Block

/-! ## Arguments -/

/-- Makes sure that there are no arguments. -/
def noArguments (function : String) (args : List Value) : Except EvalError Unit :=
  if args.isEmpty then .ok () else .error (.arity function 0 args.length)

/-- The only argument. -/
def oneArgument (function : String) (args : List Value) : Except EvalError Value :=
  match args with
  | [a] => .ok a
  | _ => .error (.arity function 1 args.length)

/-- The two arguments. -/
def twoArguments (function : String) (args : List Value) : Except EvalError (Value × Value) :=
  match args with
  | [a, b] => .ok (a, b)
  | _ => .error (.arity function 2 args.length)

/-- The string that an argument is. -/
def textOf (function : String) (value : Value) : Except EvalError String :=
  match value with
  | .string s => .ok s
  | _ => .error (.argumentType function "string" value.typeName)

/-- The only argument, a string. -/
def oneText (function : String) (args : List Value) : Except EvalError String := do
  textOf function (← oneArgument function args)

/-- The two arguments, both strings. -/
def twoTexts (function : String) (args : List Value) : Except EvalError (String × String) := do
  let (a, b) ← twoArguments function args
  return (← textOf function a, ← textOf function b)

/-- The two arguments, a key and a value. -/
def keyAndValue (function : String) (args : List Value) : Except EvalError (String × Value) := do
  let (a, b) ← twoArguments function args
  return (← textOf function a, b)

/-- A count as a value. -/
def count (n : Nat) : Value := .int (Int64.ofNat n)

/-! ## Functions -/

/-- A value as an integer. A floating-point number loses its fraction, and is taken for the nearest
integer of 64 bits; the text of a string may have blanks around it. -/
def toInteger (value : Value) : Except EvalError Value :=
  match value with
  | .int n => .ok (.int n)
  | .bool b => .ok (.int (if b then 1 else 0))
  | .float x => if x.isFinite then .ok (.int x.toInt64) else .error (.conversion value.text "int")
  | .string s =>
    match Decimal.readWord? (Text.trim s.toList) with
    | some n => .ok (.int n)
    | none => .error (.conversion s "int")
  | _ => .error (.conversion value.text "int")

/-- A value as a floating-point number. -/
def toFloat (value : Value) : Except EvalError Value :=
  match value with
  | .int n => .ok (.float (Decimal.widen n))
  | .float x => .ok (.float x)
  | .string s =>
    match Decimal.readFloat? (Text.trim s.toList) with
    | some x => .ok (.float x)
    | none => .error (.conversion s "float")
  | _ => .error (.conversion value.text "float")

/-- The length of a string, a list or a map. -/
def lengthOf (function : String) (value : Value) : Except EvalError Value :=
  match value with
  | .string s => .ok (count s.toList.length)
  | .list items => .ok (count items.length)
  | .map entries => .ok (count entries.length)
  | _ => .error (.argumentType function "string, list or map" value.typeName)

/-- Calls a function. -/
def callFunction (name : String) (args : List Value) : Except EvalError Value :=
  match name with
  | "str" => do return .string (← oneArgument name args).text
  | "int" => do toInteger (← oneArgument name args)
  | "float" => do toFloat (← oneArgument name args)
  | "len" => do lengthOf name (← oneArgument name args)
  | _ => .error (.undefinedName name)

/-! ## Methods of values -/

/-- Calls a method of a string. -/
def stringMethod (s method : String) (args : List Value) : Except EvalError Value :=
  let cs := s.toList
  let result (cs : List Char) : Value := .string (String.ofList cs)
  match method with
  | "len" => do noArguments method args; return count cs.length
  | "to_upper" => do noArguments method args; return result (Text.upper cs)
  | "to_lower" => do noArguments method args; return result (Text.lower cs)
  | "trim" => do noArguments method args; return result (Text.trim cs)
  | "starts_with" => do return .bool ((← oneText method args).toList.isPrefixOf cs)
  | "ends_with" => do return .bool ((← oneText method args).toList.isSuffixOf cs)
  | "contains" => do return .bool (Text.contains (← oneText method args).toList cs)
  | "split" => do return .list ((Text.splitOn (← oneText method args).toList cs).map result)
  | "replace" => do
    let (old, new) ← twoTexts method args
    return result (Text.replace old.toList new.toList cs)
  | _ => .error (.noMethod "string" method)

/-- Calls a method of a list. -/
def listMethod (items : List Value) (method : String) (args : List Value) :
    Except EvalError Value :=
  match method with
  | "len" => do noArguments method args; return count items.length
  | "contains" => do
    let wanted ← oneArgument method args
    return .bool (items.any fun item => equal item wanted)
  | "join" => do return .string ((← oneText method args).intercalate (items.map Value.text))
  | _ => .error (.noMethod "list" method)

/-- Calls a method of a map. -/
def mapMethod (entries : Entries Value) (method : String) (args : List Value) :
    Except EvalError Value :=
  match method with
  | "len" => do noArguments method args; return count entries.length
  | "keys" => do noArguments method args; return .strings (Entries.keys entries)
  | "contains_key" => do return .bool (Entries.hasKey entries (← oneText method args))
  | "get" =>
    match args with
    | [key] => do return (Entries.get? entries (← textOf method key)).getD .null
    | [key, fallback] => do return (Entries.get? entries (← textOf method key)).getD fallback
    | _ => .error (.arity method 1 args.length)
  | _ => .error (.noMethod "map" method)

/-- Calls a method of a value. -/
def callMethod (value : Value) (method : String) (args : List Value) : Except EvalError Value :=
  match value with
  | .string s => stringMethod s method args
  | .list items => listMethod items method args
  | .map entries => mapMethod entries method args
  | _ => .error (.noMethod value.typeName method)

/-! ## The graph -/

/-- A component as a value; there may be none. -/
def componentValue (c : Option Component) : Value := (c.map Component.toValue).getD .null

/-- What a look-up in the graph found. -/
def found (c : Except SemanticError (Option Component)) : Except EvalError Value :=
  match c with
  | .ok c => .ok (componentValue c)
  | .error cause => .error (.lookup cause)

/-- Calls a method of the graph. -/
def graphMethod (g : Graph) (method : String) (args : List Value) : Except EvalError Value :=
  match method with
  | "component" => do return componentValue (g.component? (← oneText method args))
  | "component_by_name" => do found (g.componentNamed? (← oneText method args))
  | "component_by_name_and_type" => do
    let (type, name) ← twoTexts method args
    found (g.componentOfType? type name)
  | "exists" => do return .bool (g.hasComponent (← oneText method args))
  | "component_count" => do noArguments method args; return count g.components.length
  | "relation_count" => do noArguments method args; return count g.relations.length
  | "uids" => do noArguments method args; return .strings (g.componentList.map Component.uid)
  | _ => .error (.noMethod "graph" method)

/-! ## The subject -/

/-- Calls a method of a component: what it gives, and the component after it. -/
def componentMethod (c : Component) (method : String) (args : List Value) :
    Except EvalError (Value × Component) :=
  match method with
  | "add_label" => do return (.null, c.addLabel (← oneText method args))
  | "add_label_kv" => do
    let (key, value) ← keyAndValue method args
    return (.null, c.addLabel (key ++ ":" ++ value.text))
  | "add_identifier" => do return (.null, c.addIdentifier (← oneText method args))
  | "set_property" => do
    let (key, value) ← keyAndValue method args
    return (.null, c.setProperty key value)
  | "property" => do return ((Entries.get? c.properties (← oneText method args)).getD .null, c)
  | "has_label" => do return (.bool (c.labels.contains (← oneText method args)), c)
  | "set_layer" => do return (.null, { c with layer := ← oneText method args })
  | "set_domain" => do return (.null, { c with domain := ← oneText method args })
  | "set_environment" => do return (.null, { c with environment := ← oneText method args })
  | _ => .error (.noMethod "component" method)

/-- Calls a method of an event: what it gives, and the event after it. -/
def eventMethod (e : Event) (method : String) (args : List Value) :
    Except EvalError (Value × Event) :=
  match method with
  | "add_tag" => do return (.null, e.addTag (← oneText method args))
  | "add_identifier" => do return (.null, e.addIdentifier (← oneText method args))
  | "set_data" => do
    let (key, value) ← keyAndValue method args
    return (.null, e.setData key value)
  | _ => .error (.noMethod "event" method)

end InfraGraph.Block
