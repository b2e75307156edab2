import TokenIntake.Field.Message
import TokenIntake.Field.Text
import TokenIntake.Number.Word
import TokenIntake.Query.Sanitize
import TokenIntake.Text.Numeral
import TokenIntake.Text.Parts

/-!
# Kinds of fields

What a value of the command line can be checked as. All kinds but one give a verdict;
`sanitize` cleans its value. A kind of numbers reads its value first, with blanks around
it allowed, and a value that is no number gets no verdict.
-/

namespace TokenIntake.Cli

inductive FieldKind where
  | address
  | hash
  | publicKey
  | title
  | description
  | feedUrl
  | quantity
  | price
  | tags
  | actionType
  | sanitize
  deriving DecidableEq, Repr

inductive Finding where
  | accepted
  | rejected (rejection : Rejection)
  | cleaned (text : String)
  | notNumber (name : String) (fault : Numeral.Fault)
  deriving DecidableEq, Repr

namespace Finding

def ofVerdict : Verdict → Finding
  | .ok () => accepted
  | .error rejection => rejected rejection

/-- The finding on a number, if the value is one. -/
def ofNumber {α : Type} (name : String) (check : α → Verdict) : Except Numeral.Fault α → Finding
  | .ok n => ofVerdict (check n)
  | .error fault => notNumber name fault

end Finding

namespace FieldKind

def all : List FieldKind :=
  [address, hash, publicKey, title, description, feedUrl, quantity, price, tags, actionType,
    sanitize]

def name : FieldKind → String
  | address => "address"
  | hash => "hash"
  | publicKey => "public-key"
  | title => "title"
  | description => "description"
  | feedUrl => "feed-url"
  | quantity => "quantity"
  | price => "price"
  | tags => "tags"
  | actionType => "action-type"
  | sanitize => "sanitize"

def label : FieldKind → String
  | address => "Address"
  | hash => "Hash"
  | publicKey => "PublicKey"
  | title => "Title"
  | description => "Description"
  | feedUrl => "FeedUrl"
  | quantity => "Quantity"
  | price => "Price"
  | tags => "Tags"
  | actionType => "ActionType"
  | sanitize => "Sanitize"

def ofName? (name : String) : Option FieldKind :=
  all.find? fun kind => kind.name == name

theorem ofName?_name (kind : FieldKind) : ofName? kind.name = some kind := by
  cases kind <;> decide

/-- The tags of a value that writes them between commas. An empty value has none. -/
def tagsOf (value : String) : List String :=
  if value.isEmpty then [] else (Parts.split ',' value.toList).map String.ofList

def find (kind : FieldKind) (value : String) : Finding :=
  match kind with
  | address => .ofVerdict (Address.check value)
  | hash => .ofVerdict (Hash.check value)
  | publicKey => .ofVerdict (PublicKey.check value)
  | title => .ofVerdict (Title.check value)
  | description => .ofVerdict (Description.check value)
  | feedUrl => .ofVerdict (FeedUrl.check value)
  | quantity =>
    .ofNumber "quantity" (Quantity.check "quantity") (Numeral.signed64 (trim value.toList))
  | price => .ofNumber "price" (Price.check "price") (Numeral.signed64 (trim value.toList))
  | tags => .ofVerdict (Tags.check (tagsOf value))
  | actionType =>
    .ofNumber "action type" (fun code => Message.checkAction (UInt32.ofNat code))
      (Numeral.natural (Word.shortLimit - 1) (trim value.toList))
  | sanitize => .cleaned (QueryValue.sanitize value)

end FieldKind

end TokenIntake.Cli
