import RuleLang.Number

/-!
JSON values. The fields of an object keep the order in which they were put in.
-/
namespace RuleLang

inductive Json where
  | null
  | bool (value : Bool)
  | number (value : Number)
  | string (value : String)
  | array (items : List Json)
  | object (fields : List (String × Json))

namespace Json

abbrev int (n : Int) : Json := .number (.int n)

/-- A scalar as a JSON value. -/
def ofScalar : Scalar → Json
  | .null => .null
  | .bool b => .bool b
  | .number n => .number n
  | .text s => .string s

end Json

end RuleLang
