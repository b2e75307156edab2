/-!
# UTF-8

Text as bytes. `encode` writes every character in its shortest form, and `decode`
reads exactly the byte lists that `encode` writes: a longer form than needed, a
surrogate, a value above `10FFFF`, a stray or a missing continuation byte are all
refused.
-/

namespace TokenIntake.Utf8

/-- The bytes of a text, every character in its shortest form. -/
def encode (text : List Char) : List UInt8 :=
  text.flatMap String.utf8EncodeChar

/-- The six bits that a continuation byte carries. -/
def continuation? (byte : UInt8) : Option Nat :=
  if 0x80 ≤ byte.toNat ∧ byte.toNat < 0xC0 then some (byte.toNat - 0x80) else none

/-- A character from its number, refused below the least number that needs so many bytes. -/
def scalar? (least value : Nat) : Option Char :=
  if valid : value.isValidChar then
    if least ≤ value then some (Char.ofNatAux value valid) else none
  else none

def decode : List UInt8 → Option (List Char)
  | [] => some []
  | a :: rest =>
    if a.toNat < 0x80 then do
      let c ← scalar? 0 a.toNat
      return c :: (← decode rest)
    else if a.toNat < 0xC0 then none
    else if a.toNat < 0xE0 then
      match rest with
      | b :: rest => do
        let b ← continuation? b
        let c ← scalar? 0x80 ((a.toNat - 0xC0) * 64 + b)
        return c :: (← decode rest)
      | _ => none
    else if a.toNat < 0xF0 then
      match rest with
      | b :: c :: rest => do
        let b ← continuation? b
        let c ← continuation? c
        let d ← scalar? 0x800 (((a.toNat - 0xE0) * 64 + b) * 64 + c)
        return d :: (← decode rest)
      | _ => none
    else if a.toNat < 0xF8 then
      match rest with
      | b :: c :: d :: rest => do
        let b ← continuation? b
        let c ← continuation? c
        let d ← continuation? d
        let e ← scalar? 0x10000 ((((a.toNat - 0xF0) * 64 + b) * 64 + c) * 64 + d)
        return e :: (← decode rest)
      | _ => none
    else none

def decodeString (bytes : List UInt8) : Option String :=
  (decode bytes).map String.ofList

def ofString (text : String) : List UInt8 :=
  encode text.toList

end TokenIntake.Utf8
