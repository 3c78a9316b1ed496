import Telemetry.Json.Printer
import Telemetry.Schema.Basic
import Telemetry.SortedMap

/-!
# Leaves of a data tree

A data tree flattens to a map from leaf paths to values. A leaf path begins with the module name of
the request, names every object member on the way down and gives the keys of every list entry. An
array that holds an object is a list and its other items do not count; every other array is a
value. Only leaves at or below the request remain, but the whole tree has to be well formed.
-/
namespace Telemetry

/-- Values by leaf path. -/
abbrev Leaves := SortedMap String Json

namespace Leaves

/-- Whether an array is a list of entries rather than a value. -/
def isList (items : List Json) : Bool := items.any Json.isObject

/-- The text of a key value: strings as they are, other values as compact JSON. -/
def keyText : Json → String
  | .string s => s
  | j => j.compact

/-- The predicate that gives one key of a list entry. -/
def keyPredicate (key : String) (value : Json) : Except Error String :=
  let text := keyText value
  match Path.quote? text.toList with
  | none => .error (.keyUnquotable key text)
  | some q => .ok (String.ofList (Path.predicateText key.toList q text.toList))

/-- The predicates for the keys of a list entry, in schema order. -/
def entryPredicates (list : String) (entry : Json) : List String → Except Error String
  | [] => .ok ""
  | key :: keys =>
    match entry.member? key with
    | none => .error (.entryWithoutKey list key)
    | some value =>
      match keyPredicate key value with
      | .error e => .error e
      | .ok p =>
        match entryPredicates list entry keys with
        | .error e => .error e
        | .ok ps => .ok (p ++ ps)

/-- Two walks one after the other; the first fault counts. -/
def both (a b : Except Error (List (String × Json))) : Except Error (List (String × Json)) :=
  match a with
  | .error e => .error e
  | .ok xs =>
    match b with
    | .error e => .error e
    | .ok ys => .ok (xs ++ ys)

mutual

/-- The leaves of a value at `path`, in the order of the walk. -/
def collect (node : Option SchemaNode) (path : String) : Json → Except Error (List (String × Json))
  | .object members => collectMembers node path members
  | .array items =>
    if isList items then
      match node with
      | none => .error (.listWithoutSchema path)
      | some n => collectEntries n path items
    else .ok [(path, .array items)]
  | j => .ok [(path, j)]

def collectMembers (node : Option SchemaNode) (path : String) :
    List (String × Json) → Except Error (List (String × Json))
  | [] => .ok []
  | (name, j) :: rest =>
    both (collect (node.bind (·.child? name)) (path ++ "/" ++ name) j)
      (collectMembers node path rest)

/-- The entries of a list: its items that are objects. -/
def collectEntries (node : SchemaNode) (path : String) :
    List Json → Except Error (List (String × Json))
  | [] => .ok []
  | .object members :: rest =>
    match entryPredicates path (.object members) node.keys with
    | .error e => .error e
    | .ok ps =>
      both (collectMembers (some node) (path ++ ps) members) (collectEntries node path rest)
  | _ :: rest => collectEntries node path rest

end

/-- The leaves of every top-level node, each under the module name of the request. -/
def collectTop (schema : Schema) (moduleName : Option String) :
    List (String × Json) → Except Error (List (String × Json))
  | [] => .ok []
  | (name, j) :: rest =>
    let top := Path.ofTopLevel moduleName name
    both (collect (schema.findNode top).toOption top j) (collectTop schema moduleName rest)

/-- Whether an element satisfies an element of a request: the names agree, and so does every key
the request gives. -/
def matches? (want got : Path.Elem) : Bool :=
  want.name == got.name && want.keys.all fun kv => got.keys.contains kv

/-- Whether the elements begin with elements that satisfy the request. -/
def below : List Path.Elem → List Path.Elem → Bool
  | [], _ => true
  | _ :: _, [] => false
  | want :: wants, got :: gots => matches? want got && below wants gots

/-- Whether a leaf path lies at or below the request. -/
def within (request : List Path.Elem) (leaf : String) : Bool :=
  match Path.parse leaf with
  | .error _ => false
  | .ok es => below request es

/-- The leaves of a tree at or below a path. -/
def flatten (schema : Schema) (data : Json) (path : String) : Except Error Leaves :=
  match Path.parse path with
  | .error e => .error e
  | .ok request =>
    match data with
    | .object members =>
      match collectTop schema (request.head?.bind (·.moduleName)) members with
      | .error e => .error e
      | .ok leaves => .ok ((SortedMap.ofList leaves).filter fun leaf _ => within request leaf)
    | _ => .error (.treeNotObject path)

end Leaves

end Telemetry
