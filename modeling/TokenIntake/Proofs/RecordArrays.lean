import TokenIntake.Proofs.Items
import TokenIntake.Proofs.Records

/-!
# Records read from arrays

A record may also be written as an array, with the values of its fields in the order of their
declaration. The induction is on the fields: each of them takes the next item, and behind the last
one nothing is left but the end of the array.
-/

namespace TokenIntake

open Json (Entries Value)
open Json.Scan (Skips ItemsAhead bind_of_ok)

/-- The items tell the values of the fields, one for each. Only fields that are not required may be
left over. -/
def Fields.TellsItems : (fields : Fields) → List Json → fields.Row → Prop
  | .nil, items, () => items = []
  | .cons _ shape required rest, [], (value, row) =>
    (required = false ∧ value = shape.absent) ∧ rest.TellsItems [] row
  | .cons _ shape _ rest, item :: items, (value, row) =>
    shape.Tells item value ∧ rest.TellsItems items row

theorem Fields.scanItems_complete : (fields : Fields) → {depth : Nat} → {items : List Json} →
    {row : fields.Row} → fields.TellsItems items row → (∀ tree ∈ items, tree.nesting ≤ depth) →
    (record : String) → (arity index : Nat) → {input rest : List UInt8} →
    ItemsAhead Value rest items (index == 0) input →
    ∃ unread, fields.scanItems record arity depth index input = .ok (row, unread) ∧
      Skips unread (0x5D :: rest)
  | .nil, _, _, (), rfl, _, _, _, _, input, _, ahead => ⟨input, rfl, ahead.skips_of_nil⟩
  | .cons _ shape required others, depth, [], (value, row), ⟨⟨optional, absent⟩, tells⟩, shallow,
      record, arity, index, input, rest, ahead => by
    -- No item is left, and the reader stays in front of the bracket for the remaining fields.
    obtain ⟨unread, read, skips⟩ := others.scanItems_complete tells shallow record arity (index + 1)
      (ItemsAhead.closing rest)
    refine ⟨unread, ?_, skips⟩
    rw [scanItems, bind_of_ok ahead.nextItem_of_nil, if_neg Bool.false_ne_true, optional,
      if_neg Bool.false_ne_true, bind_of_ok read, absent]
    rfl
  | .cons _ shape required others, depth, item :: items, (value, row), ⟨tell, tells⟩, shallow,
      record, arity, index, input, rest, ahead => by
    obtain ⟨here, shallow⟩ := List.forall_mem_cons.mp shallow
    obtain ⟨core, behind, found, spelled, breaks, ahead⟩ :=
      ahead.nextItem_of_cons fun _ spelled => Json.value_starts spelled
    obtain ⟨unread, read, skips⟩ :=
      others.scanItems_complete tells shallow record arity (index + 1) ahead
    refine ⟨unread, ?_, skips⟩
    rw [scanItems, bind_of_ok found, if_pos rfl,
      bind_of_ok (shape.scan_complete tell here spelled (.refl _) breaks), bind_of_ok read]
    rfl

/-- An array is read as a record if its items tell the values of the fields. -/
theorem Shape.scan_array {name : String} {fields : Fields} {items : List Json} {row : fields.Row}
    {below : Nat} {input text rest : List UInt8} (tells : fields.TellsItems items row)
    (shallow : ∀ tree ∈ items, tree.nesting ≤ below) (inside : Entries Json.Value items text)
    (skips : Skips input (0x5B :: (text ++ 0x5D :: rest))) :
    (Shape.record name fields).scan (below + 1) input = .ok (row, rest) := by
  obtain ⟨unread, read, closes⟩ :=
    fields.scanItems_complete tells shallow name fields.arity 0 (.first inside)
  rw [Shape.scan, bind_of_ok (Json.Scan.valueStart_of_skips skips (by decide)),
    if_neg (by decide), if_neg (Nat.succ_ne_zero below), if_pos rfl,
    bind_of_ok (Json.Scan.advance_ok_iff.mpr rfl), Nat.add_sub_cancel,
    bind_of_ok read, bind_of_ok (Json.Scan.closeArray_ok_iff.mpr closes)]
  rfl

theorem Shape.parse_of_tellsItems {name : String} {fields : Fields} {items : List Json}
    {row : fields.Row} {text : List UInt8} (document : Json.Document (.array items) text)
    (tells : fields.TellsItems items row) : (Shape.record name fields).parse text = .ok row := by
  obtain ⟨front, spelled, back, shallow⟩ := document
  rename_i before core after
  cases spelled with
  | @array items text inside =>
    have skips : Skips (before ++ 0x5B :: (text ++ [0x5D]) ++ after)
        (0x5B :: (text ++ 0x5D :: after)) := ⟨before, front, by simp⟩
    refine Json.Scan.run_eq_ok_iff.mpr ⟨after, ?_, back⟩
    refine Shape.scan_array tells ?_ inside skips
    exact Json.nestingItems_le_iff.mp (Nat.le_of_succ_le_succ shallow)

end TokenIntake
