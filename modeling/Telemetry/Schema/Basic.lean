import Telemetry.Path.Parser

/-!
# Schemas

A schema lists the nodes that data may have, by module at the top and by name below. It finds the
node a path names; predicates play no part in that.
-/
namespace Telemetry

inductive NodeKind where
  | container
  | list
  | leaf
  | leafList
  deriving DecidableEq, Repr

structure SchemaNode where
  name : String
  kind : NodeKind
  /-- Names of the leaves that tell the entries of a list apart. -/
  keys : List String
  children : List SchemaNode
  deriving Repr

structure SchemaModule where
  name : String
  nodes : List SchemaNode
  deriving Repr

structure Schema where
  modules : List SchemaModule
  deriving Repr

/-- The child of that name; a module name in front of it is ignored. -/
def SchemaNode.child? (n : SchemaNode) (name : String) : Option SchemaNode :=
  let bare := String.ofList (Path.afterColon name.toList)
  n.children.find? fun c => c.name == bare

namespace Schema

def empty : Schema := ⟨[]⟩

/-- The first top-level node of that name, in one module or in any. -/
def top? (s : Schema) (moduleName : Option String) (name : String) : Option SchemaNode :=
  (s.modules.filter fun m => moduleName.all (· == m.name)).flatMap (·.nodes)
    |>.find? fun n => n.name == name

/-- The top-level node of a path. -/
def findNode (s : Schema) (path : String) : Except Error SchemaNode :=
  match Path.topLevel? path with
  | none => .error (.nodeUnnamed path)
  | some (moduleName, name) =>
    match s.top? moduleName name with
    | none => .error (.nodeUnknown path)
    | some n => .ok n

/-- The node below `n` that the elements name. -/
def descend (n : SchemaNode) : List Path.Elem → Option SchemaNode
  | [] => some n
  | e :: es => (n.child? e.name).bind fun c => descend c es

/-- The node a parsed path names. -/
def resolve? (s : Schema) : List Path.Elem → Option SchemaNode
  | [] => none
  | e :: es =>
    match s.findNode (Path.ofTopLevel e.moduleName e.name) with
    | .error _ => none
    | .ok n => descend n es

/-- Whether the text is a path of which every element names a node. -/
def accepts (s : Schema) (path : String) : Bool :=
  match Path.parse path with
  | .error _ => false
  | .ok es => (s.resolve? es).isSome

end Schema

end Telemetry
