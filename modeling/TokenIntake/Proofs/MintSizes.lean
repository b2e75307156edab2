import Mathlib.Algebra.GroupWithZero.Nat
import TokenIntake.Proofs.Decimals
import TokenIntake.Proofs.Review
import TokenIntake.Request.Parse

/-!
# Sizes of written mints

What a document costs to write is the sum of what its parts cost. A character inside a string takes
six bytes at most, and two if it is safe, so limits on the number of characters are limits on bytes.
The limit on metadata is one on the very text that the written mint holds.
-/

namespace TokenIntake

/-- The bytes of a text. -/
abbrev Utf8.size (text : List Char) : Nat := (encode text).length

namespace Utf8

private theorem size_append (front back : List Char) :
    size (front ++ back) = size front + size back := by
  rw [size, encode_append, List.length_append]

private theorem size_cons {c : Char} (low : c.toNat < 0x80) (text : List Char) :
    size (c :: text) = size text + 1 := by
  rw [size, encode_cons, encodeChar_of_lt low, List.singleton_append, List.length_cons]

private theorem size_enclosed {opening closing : Char} (low : opening.toNat < 0x80)
    (low' : closing.toNat < 0x80) (inner : List Char) :
    size (opening :: (inner ++ [closing])) = size inner + 2 := by
  rw [size_cons low, size_append, size_cons low']
  rfl

private theorem size_flatMap_le {α : Type} {write : α → List Char} {items : List α} {each : Nat}
    (small : ∀ item ∈ items, size (write item) ≤ each) :
    size (items.flatMap write) ≤ items.length * each := by
  induction items with
  | nil => exact Nat.zero_le _
  | cons item rest ih =>
    obtain ⟨first, rest⟩ := List.forall_mem_cons.mp small
    rw [List.flatMap_cons, size_append, List.length_cons, Nat.succ_mul, Nat.add_comm]
    exact Nat.add_le_add (ih rest) first

end Utf8

open Utf8 (size)

namespace Json

/-! ## Texts -/

/-- The longest escape is the one by number. -/
private theorem size_writeChar_le (c : Char) : size (writeChar c) ≤ 6 := by
  unfold writeChar escape?
  split
  case h_8 =>
    split
    next control =>
      -- A backslash, the letter u, two zeros and the two digits of the code.
      have digit : ∀ d < 16, (Nat.digitChar d).toNat < 0x80 := by decide
      have high := digit (c.toNat / 16) (by omega)
      have low := digit (c.toNat % 16) (by omega)
      rw [Option.getD_some, size, Utf8.length_encode_of_lt (by simp [high, low])]
      exact Nat.le_refl 6
    next =>
      rw [Option.getD_none, size, Utf8.encode_cons, List.length_append, String.length_utf8EncodeChar]
      exact Nat.le_trans c.utf8Size_le_four (by decide)
  all_goals
    rw [Option.getD_some]
    decide

/-- A safe character stands for itself or has a short escape. -/
private theorem size_writeChar_le_of_safe {c : Char} (safe : SafeChar c) :
    size (writeChar c) ≤ 2 := by
  have ascii : ∀ n < 128, SafeChar (Char.ofNat n) → size (writeChar (Char.ofNat n)) ≤ 2 := by
    decide +kernel
  have bound := ascii c.toNat (safeChar_lt safe)
  rw [Char.ofNat_toNat] at bound
  exact bound safe

private theorem size_writeString_le {text : String} {each : Nat}
    (small : ∀ c ∈ text.toList, size (writeChar c) ≤ each) :
    size (writeString text) ≤ text.toList.length * each + 2 := by
  have inside := Utf8.size_flatMap_le small
  rw [writeString, Utf8.size_enclosed (by decide) (by decide)]
  exact Nat.add_le_add_right inside 2

/-- A text of any characters. -/
private theorem size_write_string_le {text : String} {max : Nat}
    (short : text.toList.length ≤ max) :
    size (write (.string text)) ≤ max * 6 + 2 := by
  rw [write]
  exact Nat.le_trans (size_writeString_le fun c _ => size_writeChar_le c)
    (Nat.add_le_add_right (Nat.mul_le_mul_right 6 short) 2)

private theorem size_write_string_le_of_safe {text : String} {max : Nat}
    (rule : SafeText max text) :
    size (write (.string text)) ≤ max * 2 + 2 := by
  obtain ⟨-, short, safe⟩ := rule
  rw [write]
  exact Nat.le_trans (size_writeString_le fun c found => size_writeChar_le_of_safe (safe c found))
    (Nat.add_le_add_right (Nat.mul_le_mul_right 2 short) 2)

/-! ## Arrays and objects -/

private theorem size_writeItemsAfter_le {items : List Json} {each : Nat}
    (small : ∀ item ∈ items, size (write item) ≤ each) :
    size (writeItemsAfter items) ≤ items.length * (each + 1) := by
  induction items with
  | nil => exact Nat.zero_le _
  | cons item rest ih =>
    -- Each item brings the comma in front of it.
    obtain ⟨first, others⟩ := List.forall_mem_cons.mp small
    have behind := ih others
    rw [writeItemsAfter, Utf8.size_cons (by decide), Utf8.size_append, List.length_cons,
      Nat.succ_mul]
    omega

private theorem size_write_array_le {items : List Json} {each : Nat}
    (small : ∀ item ∈ items, size (write item) ≤ each) :
    size (write (.array items)) ≤ items.length * (each + 1) + 2 := by
  rw [write, Utf8.size_enclosed (by decide) (by decide)]
  refine Nat.add_le_add_right ?_ 2
  cases items with
  | nil => exact Nat.zero_le _
  | cons item rest =>
    obtain ⟨first, others⟩ := List.forall_mem_cons.mp small
    have behind := size_writeItemsAfter_le others
    rw [writeItems, Utf8.size_append, List.length_cons, Nat.succ_mul]
    omega

/-- What a member costs with its colon and a comma. -/
def memberSize (member : String × Json) : Nat :=
  size (writeString member.1) + size (write member.2) + 2

private theorem size_writeMembersAfter (members : List (String × Json)) :
    size (writeMembersAfter members) = (members.map memberSize).sum := by
  induction members with
  | nil => rfl
  | cons member rest ih =>
    rw [writeMembersAfter, Utf8.size_cons (by decide), Utf8.size_append, Utf8.size_cons (by decide),
      Utf8.size_append, ih, List.map_cons, List.sum_cons, memberSize]
    omega

private theorem size_write_object_le (members : List (String × Json)) :
    size (write (.object members)) ≤ (members.map memberSize).sum + 2 := by
  rw [write, Utf8.size_enclosed (by decide) (by decide)]
  refine Nat.add_le_add_right ?_ 2
  cases members with
  | nil => exact Nat.zero_le _
  | cons member rest =>
    rw [writeMembers, Utf8.size_append, Utf8.size_cons (by decide), Utf8.size_append,
      size_writeMembersAfter, List.map_cons, List.sum_cons, memberSize]
    omega

end Json

/-! ## Fields of a mint -/

open Json

theorem Amount.Rule.size_le {amount : Int64} (rule : Amount.Rule amount) :
    size (write (.integer amount.toInt)) ≤ 10 := by
  obtain ⟨positive, most⟩ := rule
  obtain ⟨n, same⟩ := Int.eq_ofNat_of_zero_le (show 0 ≤ amount.toInt by omega)
  have digits : n < 10 ^ 10 := by omega
  rw [same]
  exact Numeral.size_ofNat_le digits (by decide)

theorem Tags.Rule.size_le {tags : List String} (rule : Tags.Rule tags) :
    size (write (.array (tags.map .string))) ≤ 2062 := by
  obtain ⟨few, safe⟩ := rule
  have each : ∀ item ∈ tags.map Json.string, size (write item) ≤ 102 := by
    exact List.forall_mem_map.mpr fun tag found => size_write_string_le_of_safe (safe tag found)
  have all := size_write_array_le each
  rw [List.length_map] at all
  omega

theorem Metadata.Rule.size_le {metadata : Option Json} (rule : Metadata.Rule metadata) :
    size (write (metadata.getD .null)) ≤ 10000 := by
  cases metadata with
  | none => decide
  | some document => exact rule document rfl

theorem FeedUrl.Rule.length_le {url : String} (rule : FeedUrl.Rule url) :
    url.toList.length ≤ 500 := by
  rcases rule with rfl | ⟨short, -⟩
  · decide
  · exact short

theorem Address.Rule.length_le {address : String} (rule : Address.Rule address) :
    address.toList.length ≤ 35 := by
  obtain ⟨first, body, text, -, -, short, -⟩ := rule
  rw [text, List.length_cons]
  exact Nat.succ_le_succ short

theorem Address.OptionalRule.size_le {address : Option String}
    (rule : Address.OptionalRule address) :
    size (write ((address.map .string).getD .null)) ≤ 212 := by
  cases address with
  | none => decide
  | some text =>
    have short : text.toList.length ≤ 35 := by
      rcases rule text rfl with rfl | rule
      · decide
      · exact rule.length_le
    exact size_write_string_le short

/-! ## Mints -/

namespace RequestKind

private theorem toJson_mint (p : MintPayload) :
    RequestKind.mint.shape.toJson (RequestKind.mint.toValue p) =
    .object [("title", .string p.title), ("fraction_count", .integer p.fractionCount.toInt),
      ("description", .string p.description), ("tags", .array (p.tags.map .string)),
      ("metadata", p.metadata.getD .null), ("feed_url", .string p.feedUrl),
      ("owner_address", (p.ownerAddress.map .string).getD .null)] := by
  obtain ⟨title, fractionCount, description, tags, metadata, feedUrl, ownerAddress⟩ := p
  cases metadata with
  | none => cases ownerAddress <;> rfl
  | some => cases ownerAddress <;> rfl

/-- An accepted mint can be stored in 22000 bytes, whatever its texts and its metadata hold. -/
theorem size_write_mint_le {p : MintPayload}
    (accepted : (RequestKind.review .mint p).answer = .ok ()) :
    (RequestKind.write .mint p).utf8ByteSize ≤ 22000 := by
  -- Each field is within its own limit, and the names of the members are the same for all mints.
  have rules := review_eq_ok_iff.mp accepted
  simp only [reviewed, List.forall_mem_cons] at rules
  obtain ⟨title, fractionCount, description, tags, metadata, feedUrl, ownerAddress, -⟩ := rules
  have names : size (writeString "title") + size (writeString "fraction_count") +
      size (writeString "description") + size (writeString "tags") + size (writeString "metadata") +
      size (writeString "feed_url") + size (writeString "owner_address") = 77 := by
    decide
  have title := size_write_string_le_of_safe title
  have fractionCount := fractionCount.size_le
  have description := size_write_string_le description.2
  have tags := tags.size_le
  have metadata := metadata.size_le
  have feedUrl := size_write_string_le feedUrl.length_le
  have ownerAddress := ownerAddress.size_le
  rw [RequestKind.write, toJson_mint, size_eq_length, Utf8.ofString, compact, String.toList_ofList]
  refine Nat.le_trans (size_write_object_le _) ?_
  simp only [List.map_cons, List.map_nil, List.sum_cons, List.sum_nil, memberSize]
  omega

/-- Characters that need their longest escape, an empty member name and an address left empty. -/
theorem size_write_mint_le_of_escapes :
    (RequestKind.write .mint ⟨"a\tb", 1000000000, "\x00\x1f\"", ["x y", "(z)"],
      some (.object [("", .array [.null, .string "\x01"])]), "", some ""⟩).utf8ByteSize ≤ 22000 :=
  size_write_mint_le (by decide)

end RequestKind

end TokenIntake
