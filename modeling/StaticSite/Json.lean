import StaticSite.Decimal.Shortest
import StaticSite.Table

/-!
# JSON values

The data of JSON. The members of an object are kept in the order of their names, and a name occurs once.
Whole numbers of at most 64 bits are kept apart from floating-point numbers.
-/
namespace StaticSite

inductive Json where
  | null
  | bool (b : Bool)
  | integer (n : Int)
  | float (x : Decimal.Binary64)
  | string (t : Text)
  | array (items : List Json)
  | object (members : List (Text × Json))
deriving Inhabited

namespace Json

/-- An object with some members, of which the last with a name counts. -/
def ofMembers (members : List (Text × Json)) : Json :=
  .object (Table.ofEntries members)

end Json

end StaticSite
