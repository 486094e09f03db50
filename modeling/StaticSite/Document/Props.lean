import StaticSite.Document.Node
import StaticSite.Json.Parser
import StaticSite.Json.Printer

/-!
# Component properties

The attributes of a component element as a JSON object.
-/
namespace StaticSite

/-- A string stands for itself, a flag for true, and an expression for the value it is the JSON text of
or else for its own source. -/
def AttributeValue.toJson : AttributeValue → Json
  | .string value => .string value
  | .expression source => (Json.parse? source).getD (.string source)
  | .flag => .bool true

/-- The properties of an element; of attributes with one name the last counts. -/
def componentProps (attributes : List Attribute) : Json :=
  .ofMembers (attributes.map fun a => (a.name, a.value.toJson))

end StaticSite
