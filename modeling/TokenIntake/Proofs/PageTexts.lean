import TokenIntake.Proofs.Layouts
import TokenIntake.Proofs.RecordArrays
import TokenIntake.Query.Written

/-!
# Texts of pages

A page is read from whatever text tells its size and its number, and each of them may be any word.
In an object the two stand in either order with other members around them, in an array by
themselves. An object that lacks one of them, has one of them twice, or has a whole number in its
place that no word has room for, is refused.
-/

namespace TokenIntake

namespace Json

/-- The text is a whole number that is negative or at least two to the power of 64. -/
def NoWord (core : List UInt8) : Prop :=
  ∃ literal : NumberLiteral, core = literal.text ∧ literal.IsWhole ∧
    (literal.negative = true ∨ 2 ^ 64 ≤ natural literal.whole)

theorem NumberLiteral.integer?_of_value? {literal : NumberLiteral} {n : Int}
    (value : literal.value? = some (.integer n)) : literal.integer? = some n := by
  unfold value? at value
  split at value
  next whole =>
    cases value
    exact whole
  next =>
    obtain ⟨x, -, same⟩ := Option.map_eq_some_iff.mp value
    cases same

theorem NumberLiteral.not_fitsUnsigned {literal : NumberLiteral} {n : Int}
    (outside : literal.negative = true ∨ 2 ^ 64 ≤ natural literal.whole)
    (value : literal.value? = some (.integer n)) : ¬ Word.fitsUnsigned n = true := by
  have whole := integer?_of_value? value
  rw [Word.fitsUnsigned_iff]
  unfold integer? at whole
  dsimp only at whole
  split_ifs at whole with isWhole negative small small
  · -- Only a negative value other than zero is kept, and no word is negative.
    cases whole
    omega
  · have past := outside.resolve_left negative
    omega

end Json

open Json (Blanks ObjectDocument HasField HasTwice NoWord Value WellFormed)
open Json.Scan (Skips Breaks)

namespace Pagination

/-! ## The texts -/

/-- The members hold the page. Under other names anything may stand. -/
structure HeldBy (p : Pagination) (members : List (String × List UInt8)) : Prop where
  limit : HasField members "limit" (Value (.integer p.limit.toNat)) False
  page : HasField members "page" (Value (.integer p.page.toNat)) False
  others : ∀ member ∈ members, member.1 ≠ "limit" → member.1 ≠ "page" → WellFormed member.2

/-- The texts that tell the page: an object that holds it, or an array of its size and its number. -/
inductive Layout (p : Pagination) (text : List UInt8) : Prop
  | object {members : List (String × List UInt8)} (document : ObjectDocument members text)
    (held : p.HeldBy members)
  | array (document : Json.Document (.array [.integer p.limit.toNat, .integer p.page.toNat]) text)

/-- What keeps the members from holding a page: one of the two fields is missing, stands there
twice, or is a whole number that is no word. -/
inductive Spoils (members : List (String × List UInt8)) : Prop
  | missing {name : String} (field : name ∈ ["limit", "page"])
    (absent : name ∉ members.map Prod.fst)
  | twice {name : String} (field : name ∈ ["limit", "page"]) (repeated : HasTwice members name)
  | noWord {name : String} {core : List UInt8} (field : name ∈ ["limit", "page"])
    (found : (name, core) ∈ members) (outside : NoWord core)

/-- The text is an object of any members that do not hold a page. -/
def Spoiled (text : List UInt8) : Prop :=
  ∃ members, ObjectDocument members text ∧ (∀ member ∈ members, WellFormed member.2) ∧
    Spoils members

/-! ## Reading a page -/

private theorem nodup_fields : fields.names.Nodup := by decide

private theorem names_fields : fields.names = ["limit", "page"] := rfl

private theorem required_fields : fields.required = ["limit", "page"] := rfl

private theorem readsAs_word {n : UInt64} {core : List UInt8} {depth : Nat}
    (told : Value (.integer n.toNat) core) : Shape.word.ReadsAs depth core n :=
  fun skips breaks => Shape.word.scan_complete rfl (Nat.zero_le _) told skips breaks

theorem parse_of_layout {p : Pagination} {text : List UInt8} (layout : p.Layout text) :
    parse text = .ok p := by
  have row : shape.parse text = .ok p.toRow := by
    cases layout with
    | array document =>
      exact Shape.parse_of_tellsItems document ⟨rfl, rfl, rfl⟩
    | object document held =>
      obtain ⟨limit, page, others⟩ := held
      refine Shape.parse_of_object document nodup_fields ?_ ?_ ?_
      · -- What a member has to tell goes by its name.
        rintro ⟨name, core⟩ found
        change if name = "limit" then _ else if name = "page" then _ else WellFormed core
        split_ifs with isLimit isPage
        · subst isLimit
          exact readsAs_word (limit.tells core found)
        · subst isPage
          exact readsAs_word (page.tells core found)
        · exact others _ found isLimit isPage
      · intro name known
        rw [names_fields, List.mem_pair] at known
        rcases known with rfl | rfl
        · exact limit.once
        · exact page.once
      · exact ⟨fun missing => (limit.missing missing).elim,
          fun missing => (page.missing missing).elim, trivial⟩
  rw [parse, row]
  rfl

/-! ## Refusing what is no page -/

private theorem keepStep_fields (depth : Nat) : fields.KeepStep depth :=
  ⟨Shape.keepsStep_word depth, Shape.keepsStep_word depth, trivial⟩

private theorem not_accepts_of_noWord {depth : Nat} {name : String} {core : List UInt8}
    (field : name ∈ ["limit", "page"]) (outside : NoWord core) :
    ¬ fields.Accepts depth name core := by
  obtain ⟨literal, rfl, -, outside⟩ := outside
  have noWord : ¬ ∃ input rest value, Skips input (literal.text ++ rest) ∧ Breaks rest ∧
      Shape.word.scan depth input = .ok (value, rest) := by
    rintro ⟨input, rest, value, skips, breaks, read⟩
    rw [Shape.scan] at read
    obtain ⟨n, read, -⟩ := Json.Scan.bind_pure_ok_iff.mp read
    obtain ⟨value, fits, -⟩ := (Json.Scan.integer_text_ok_iff _ _ skips breaks).mp read
    exact Json.NumberLiteral.not_fitsUnsigned outside value fits
  rcases List.mem_pair.mp field with rfl | rfl
  · exact noWord
  · exact noWord

theorem parse_of_spoiled {text : List UInt8} (spoiled : Spoiled text) :
    ∃ fault, parse text = .error fault := by
  obtain ⟨members, document, each, spoils⟩ := spoiled
  cases result : shape.parse text with
  | error fault => exact ⟨fault, by rw [parse, result]; rfl⟩
  | ok row =>
    -- What was read was admitted, and none of the reasons leaves room for that.
    exfalso
    obtain ⟨once, present, accepts⟩ :=
      Shape.admits_of_parse document (keepStep_fields 126) nodup_fields each result
    rw [names_fields] at once
    rw [required_fields] at present
    cases spoils with
    | missing field absent => exact absent (present _ field)
    | twice field repeated => exact absurd (once _ field) (Nat.not_le_of_lt repeated)
    | noWord field found outside => exact not_accepts_of_noWord field outside (accepts _ found)

/-! ## The written form -/

private theorem faithful_toRow (p : Pagination) : shape.Faithful p.toRow :=
  ⟨nodup_fields, trivial, trivial, trivial⟩

private theorem nesting_toJson (p : Pagination) : p.toJson.nesting ≤ 127 := by
  have flat : p.toJson.nesting = 1 := rfl
  rw [flat]
  decide

theorem parse_toJson (p : Pagination) : parse (Utf8.ofString p.toJson.compact) = .ok p := by
  rw [parse, toJson, Shape.parse_compact p.faithful_toRow p.nesting_toJson]
  rfl

/-- A page of any words is read from what it is written as and from every other text that tells it,
and an object that does not hold a page is never read as one. -/
theorem parse_tells_page :
    (∀ p : Pagination, parse (Utf8.ofString p.toJson.compact) = .ok p) ∧
      (∀ (p : Pagination) (text : List UInt8), p.Layout text → parse text = .ok p) ∧
      ∀ text, Spoiled text → ∃ fault, parse text = .error fault :=
  ⟨parse_toJson, fun _ _ => parse_of_layout, fun _ => parse_of_spoiled⟩

/-- The largest word is read, behind the other field and a member of no field, and the number after
it is not. -/
theorem parse_tells_page_of_largest :
    parse (Utf8.ofString "\x7b\"page\":0, \"x\":[],\"limit\":18446744073709551615\x7d") =
        .ok ⟨18446744073709551615, 0⟩ ∧
      ∃ fault, parse (Utf8.ofString "\x7b\"page\":0,\"limit\":18446744073709551616\x7d") =
        .error fault := by
  have spelled (text : String) := Json.stringSpelling_writeString text
  have space : Blanks [0x20] := by simp [Blanks]
  have zero : Value (.integer 0) [0x30] := Json.value_writeNumber (by decide)
  have largest : Value (.integer 18446744073709551615) (Utf8.ofString "18446744073709551615") :=
    Json.value_writeNumber (by decide)
  constructor
  · have held : HeldBy ⟨18446744073709551615, 0⟩ [("page", [0x30]), ("x", [0x5B, 0x5D]),
        ("limit", Utf8.ofString "18446744073709551615")] :=
      ⟨⟨by decide, by simpa using largest, by simp⟩, ⟨by decide, by simpa using zero, by simp⟩,
        by simpa using .array (.none .nil) (by simp)⟩
    refine parse_tells_page.2.1 _ _ (.object ⟨[], _, [], ?_, .nil, .nil, _,
      .some .nil (.mk (spelled "page") .nil .nil rfl) .nil (.cons space
        (.mk (spelled "x") .nil .nil rfl) .nil (.cons .nil
          (.mk (spelled "limit") .nil .nil rfl) .nil .nil)), rfl⟩ held)
    decide
  · let past := Json.plain 18446744073709551616
    have outside : NoWord past.text := ⟨past, rfl, ⟨rfl, rfl⟩, .inr (by decide)⟩
    have found : ("limit", past.text) ∈ [("page", [0x30]), ("limit", past.text)] := by simp
    have each : ∀ member ∈ [("page", [0x30]), ("limit", past.text)], WellFormed member.2 :=
      List.forall_mem_cons.mpr ⟨.number (Json.plain 0), List.forall_mem_singleton.mpr (.number past)⟩
    refine parse_tells_page.2.2 _ ⟨_, ⟨[], _, [], ?_, .nil, .nil, _,
      .some .nil (.mk (spelled "page") .nil .nil rfl) .nil (.cons .nil
        (.mk (spelled "limit") .nil .nil rfl) .nil .nil), rfl⟩, each,
      .noWord (by decide) found outside⟩
    decide

end Pagination

end TokenIntake
