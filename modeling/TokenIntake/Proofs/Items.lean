import TokenIntake.Proofs.Scanning

/-!
# Items taken one by one

An array whose items are taken off the text one after the other: how many of them still follow says
what the reader finds next, an item or the end of the array.
-/

namespace TokenIntake.Json.Scan

/-- The items that follow in the array: all of them, or those behind an item. -/
inductive ItemsAhead {α : Type} (Entry : α → List UInt8 → Prop) (rest : List UInt8) :
    List α → Bool → List UInt8 → Prop
  | first {items : List α} {text : List UInt8} (spelled : Entries Entry items text) :
      ItemsAhead Entry rest items true (text ++ 0x5D :: rest)
  | behind {items : List α} {blanks more : List UInt8} (front : Blanks blanks)
      (spelled : MoreEntries Entry items more) :
      ItemsAhead Entry rest items false (blanks ++ (more ++ 0x5D :: rest))

namespace ItemsAhead

variable {α : Type} {Entry : α → List UInt8 → Prop} {rest input : List UInt8} {first : Bool}
  {item : α} {others : List α}

theorem closing (rest : List UInt8) : ItemsAhead Entry rest [] false (0x5D :: rest) :=
  .behind .nil .nil

theorem skips_of_nil (ahead : ItemsAhead Entry rest [] first input) :
    Skips input (0x5D :: rest) := by
  cases ahead with
  | first spelled =>
    cases spelled with
    | none blanks => exact ⟨_, blanks, rfl⟩
  | behind blanks spelled =>
    cases spelled with
    | nil => exact ⟨_, blanks, rfl⟩

/-- The item stands in front, with a comma before it if it is not the first. -/
theorem exists_item (ahead : ItemsAhead Entry rest (item :: others) first input) :
    ∃ core unread, Entry item core ∧ Breaks unread ∧ ItemsAhead Entry rest others false unread ∧
      (first = true ∧ Skips input (core ++ unread) ∨
        first = false ∧ ∃ mid, Skips input (0x2C :: mid) ∧ Skips mid (core ++ unread)) := by
  cases ahead with
  | first spelled =>
    cases spelled with
    | @some _ _ before core after more front head back spelled =>
      exact ⟨core, after ++ (more ++ 0x5D :: rest), head,
        breaks_append back (breaks_moreEntries (.inl rfl) spelled), .behind back spelled,
        .inl ⟨rfl, before, front, by simp⟩⟩
  | behind blanks spelled =>
    -- The comma belongs to the item that it announces.
    cases spelled with
    | @cons _ _ before core after more front head back spelled =>
      exact ⟨core, after ++ (more ++ 0x5D :: rest), head,
        breaks_append back (breaks_moreEntries (.inl rfl) spelled), .behind back spelled,
        .inr ⟨rfl, _, ⟨_, blanks, rfl⟩, before, front, by simp⟩⟩

theorem nextItem_of_nil (ahead : ItemsAhead Entry rest [] first input) :
    nextItem first input = .ok (false, 0x5D :: rest) :=
  (separates_nextItem ..).mpr ⟨_, _, rfl, .inl ⟨rfl, rfl, ahead.skips_of_nil⟩⟩

theorem nextItem_of_cons (ahead : ItemsAhead Entry rest (item :: others) first input)
    (starts : ∀ core, Entry item core →
      ∃ byte tail, core = byte :: tail ∧ isBlank byte = false ∧ byte ≠ 0x5D) :
    ∃ core unread, nextItem first input = .ok (true, core ++ unread) ∧ Entry item core ∧
      Breaks unread ∧ ItemsAhead Entry rest others false unread := by
  obtain ⟨core, unread, spelled, breaks, behind, place⟩ := ahead.exists_item
  obtain ⟨byte, tail, rfl, start⟩ := starts core spelled
  exact ⟨_, unread, (separates_nextItem ..).mpr ⟨byte, _, rfl, .inr ⟨rfl, start, place⟩⟩, spelled,
    breaks, behind⟩

end ItemsAhead

end TokenIntake.Json.Scan
