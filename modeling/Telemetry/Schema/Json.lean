import Telemetry.Json.Reader
import Telemetry.Json.Record
import Telemetry.Schema.Basic

/-!
# Schemas in JSON

A schema document is `modules`, each with a `name` and `nodes`; a node has a `name` and may have a
`kind`, `keys` and `children`. Nothing in it may be `null`.
-/
namespace Telemetry

open Json (Slot slots? list? variant?)

def NodeKind.name : NodeKind → String
  | .container => "container"
  | .list => "list"
  | .leaf => "leaf"
  | .leafList => "leaf-list"

def NodeKind.ofName? : String → Option NodeKind
  | "container" => some .container
  | "list" => some .list
  | "leaf" => some .leaf
  | "leaf-list" => some .leafList
  | _ => none

/-- A node of at most so many levels. -/
def SchemaNode.decode? : Nat → Json → Option SchemaNode
  | 0, _ => none
  | fuel + 1, j => do
    let [name, kind, keys, children] ← slots? ["name", "kind", "keys", "children"] j | none
    return {
      name := ← name.required Json.string?
      kind := ← kind.withDefault (variant? NodeKind.ofName?) .container
      keys := ← keys.withDefault (list? Json.string?) []
      children := ← children.withDefault (list? (decode? fuel)) [] }

/-- A document has a value up to this depth only, so its nodes nest less deeply. -/
def SchemaNode.ofJson? (j : Json) : Option SchemaNode := decode? (Json.Reader.depthLimit + 1) j

def SchemaModule.ofJson? (j : Json) : Option SchemaModule := do
  let [name, nodes] ← slots? ["name", "nodes"] j | none
  return {
    name := ← name.required Json.string?
    nodes := ← nodes.withDefault (list? SchemaNode.ofJson?) [] }

def Schema.ofJson? (j : Json) : Option Schema := do
  let [modules] ← slots? ["modules"] j | none
  return { modules := ← modules.withDefault (list? SchemaModule.ofJson?) [] }

/-- The schema that a text describes. No member of a schema is a truth value, so text without a
value is read as one: it matters only where somebody looks. -/
def Schema.ofText (text : String) : Except Error Schema :=
  match (Json.document? (some (.bool false)) text).bind ofJson? with
  | some s => .ok s
  | none => .error (.malformedJson "not a schema")

mutual

def SchemaNode.toJson : SchemaNode → Json
  | ⟨name, kind, keys, children⟩ => .object <|
    (if children.isEmpty then [] else [("children", .array (nodesToJson children))])
      ++ (if keys.isEmpty then [] else [("keys", .array (keys.map .string))])
      ++ [("kind", .string kind.name), ("name", .string name)]

def nodesToJson : List SchemaNode → List Json
  | [] => []
  | n :: ns => n.toJson :: nodesToJson ns

end

def SchemaModule.toJson (m : SchemaModule) : Json :=
  .object [("name", .string m.name), ("nodes", .array (nodesToJson m.nodes))]

def Schema.toJson (s : Schema) : Json :=
  .object [("modules", .array (s.modules.map (·.toJson)))]

end Telemetry
