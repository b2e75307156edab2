import TokenIntake.Field.Rejection
import TokenIntake.Text.Utf8

/-!
# Free text

Titles, descriptions, feed addresses, tags and metadata. Lengths are counted in
characters, the size of metadata in bytes.
-/

namespace TokenIntake

/-- The longest title, in characters. -/
def maxTitleLength : Nat := 100

def maxDescriptionLength : Nat := 1000

def maxFeedUrlLength : Nat := 500

def maxTagLength : Nat := 50

def maxTagCount : Nat := 20

def maxMetadataSize : Nat := 10000

/-- ASCII letters and digits, the blanks TAB, LF, FF, CR and space, and eight marks. -/
def isSafe (c : Char) : Bool :=
  c.isAlphanum || c == '\t' || c == '\n' || c == '\x0c' || c == '\r' || c == ' ' || c == '-' ||
    c == '_' || c == '.' || c == ',' || c == '!' || c == '?' || c == '(' || c == ')'

def isSafeText (text : List Char) : Bool :=
  !text.isEmpty && text.all isSafe

/-- Accepts the UTF-8 encoding of at most `max` characters. -/
def checkByteLength (field : String) (bytes : List UInt8) (max : Nat) : Verdict :=
  match Utf8.decode bytes with
  | none => .error (.notUtf8 field)
  | some text => Verdict.ensure (text.length ≤ max) (.tooLong field max)

def checkLength (field : String) (text : String) (max : Nat) : Verdict :=
  checkByteLength field (Utf8.ofString text) max

namespace Title

/-- Accepts a safe text that is neither empty nor too long. -/
def check (text : String) : Verdict :=
  if text.isEmpty then .error (.required "title")
  else do
    checkLength "title" text maxTitleLength
    Verdict.ensure (isSafeText text.toList) (.unsafeCharacters "title")

end Title

namespace Description

/-- Accepts any text that is neither empty nor too long. -/
def check (text : String) : Verdict :=
  if text.isEmpty then .error (.required "description")
  else checkLength "description" text maxDescriptionLength

end Description

namespace FeedUrl

/-- The text starts with the scheme of the web, plain or secure. -/
def hasScheme (text : List Char) : Bool :=
  "http://".toList.isPrefixOf text || "https://".toList.isPrefixOf text

/-- Accepts an empty text, and one that has a scheme and is not too long. -/
def check (text : String) : Verdict :=
  if text.isEmpty then .ok ()
  else do
    checkLength "feed_url" text maxFeedUrlLength
    Verdict.ensure (hasScheme text.toList) (.notUrl "feed_url")

end FeedUrl

namespace Tags

/-- Accepts a safe text that is neither empty nor too long; a rejection names the
tag by its position. -/
def checkAt (position : Nat) (tag : String) : Verdict :=
  if tag.isEmpty then .error (.emptyTag position)
  else do
    checkLength s!"tag {position}" tag maxTagLength
    Verdict.ensure (isSafeText tag.toList) (.unsafeCharacters s!"tag {position}")

/-- Accepts if every tag is accepted, the first of them standing at `position`. -/
def checkFrom (position : Nat) : List String → Verdict
  | [] => .ok ()
  | tag :: rest => do
    checkAt position tag
    checkFrom (position + 1) rest

/-- Accepts a list of accepted tags that is not too long. Positions count from one. -/
def check (tags : List String) : Verdict :=
  if maxTagCount < tags.length then .error (.tooManyTags maxTagCount)
  else checkFrom 1 tags

end Tags

namespace Metadata

def checkSize (field : String) (size : Nat) : Verdict :=
  Verdict.ensure (size ≤ maxMetadataSize) (.tooLarge field maxMetadataSize)

end Metadata

end TokenIntake
