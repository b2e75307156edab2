import TokenIntake.Field.Message
import TokenIntake.Schema.Variant

/-!
# Networks and actions in JSON

Both are written by their names, and only these names are read.
-/

namespace TokenIntake

namespace Network

def all : List Network := [mainnet, testnet]

def toJson (network : Network) : Json := .string network.name

def parse (text : List UInt8) : Except Json.Fault Network :=
  parseNamed (all.map fun network => (network.name, network)) text

end Network

namespace Action

def all : List Action := [mint, invoice, payment]

def toJson (action : Action) : Json := .string action.name

def parse (text : List UInt8) : Except Json.Fault Action :=
  parseNamed (all.map fun action => (action.name, action)) text

end Action

end TokenIntake
