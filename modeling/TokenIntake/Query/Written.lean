import TokenIntake.Query.Pagination
import TokenIntake.Schema.Scan
import TokenIntake.Schema.ToJson

/-!
# Pages in JSON

A page is written as a record of its size and its number. Any two words are read, also
those that no query can ask for.
-/

namespace TokenIntake.Pagination

def toJson (p : Pagination) : Json := shape.toJson p.toRow

def parse (text : List UInt8) : Except Json.Fault Pagination :=
  (shape.parse text).map ofRow

end TokenIntake.Pagination
