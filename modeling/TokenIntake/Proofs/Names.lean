import TokenIntake.Field.Written
import TokenIntake.Proofs.Decimals
import TokenIntake.Proofs.Records

/-!
# Names in JSON

A choice between known values is written as the name of the value. Two documents hold a name: the
string, and the object whose only member is named so and is null. The reader takes these two in
every spelling and nothing else, so a network and an action are read back from what they are
written as, and no other text is taken for one.
-/

namespace TokenIntake

open Json (Document Value Member Entries MoreEntries StringSpelling)

namespace Json

/-- The document holds the name. -/
inductive HoldsName (name : String) : Json → Prop
  | string : HoldsName name (.string name)
  | object : HoldsName name (.object [(name, .null)])

namespace Scan

theorem knownName_ok_iff {known : List String} {name : String} {input rest : List UInt8} :
    knownName known input = .ok (name, rest) ↔
      name ∈ known ∧ ∃ core, StringSpelling name core ∧ Skips input (core ++ rest) := by
  rw [← text_ok_iff, knownName, bind_ok_iff]
  constructor
  · rintro ⟨read, mid, start, ok⟩
    split at ok
    next member =>
      obtain ⟨rfl, rfl⟩ := pure_ok_iff.mp ok
      exact ⟨member, start⟩
    next => simp [misfit, failWith] at ok
  · rintro ⟨member, start⟩
    exact ⟨name, rest, start, by rw [if_pos member]; rfl⟩

theorem unit_ok_iff {input rest : List UInt8} :
    unit input = .ok ((), rest) ↔ Skips input ([0x6E, 0x75, 0x6C, 0x6C] ++ rest) := by
  constructor
  · intro ok
    obtain ⟨byte, mid, start, ok⟩ := bind_ok_iff.mp ok
    obtain ⟨tail, rfl, skips, -⟩ := valueStart_ok_iff.mp start
    split at ok
    next word =>
      obtain ⟨_, mid, passed, ok⟩ := bind_ok_iff.mp ok
      obtain rfl := advance_ok_iff.mp passed
      rwa [word, literal_ok_iff.mp ok] at skips
    next => exact absurd ok wrongType_ne_ok
  · intro skips
    rw [unit, bind_of_ok (valueStart_of_skips skips (by decide)), if_pos rfl,
      bind_of_ok (advance_ok_iff.mpr rfl)]
    exact literal_ok_iff.mpr rfl

/-- What stands behind the value of a member whose object has no other. -/
def closeVariant (name : String) : Scan String := do
  match ← peekToken with
  | none => fail .endInObject
  | some byte => if byte = 0x7D then do advance; pure name else fail .noValue

theorem closeVariant_ok_iff {name read : String} {input rest : List UInt8} :
    closeVariant name input = .ok (read, rest) ↔ name = read ∧ Skips input (0x7D :: rest) := by
  constructor
  · intro ok
    obtain ⟨front, mid, peeked, ok⟩ := bind_ok_iff.mp ok
    obtain ⟨rfl, skips, -⟩ := peekToken_ok_iff.mp peeked
    cases mid with
    | nil => simp at ok
    | cons byte tail =>
      simp only [List.head?_cons] at ok
      split at ok
      next closing =>
        obtain ⟨_, mid, passed, ok⟩ := bind_ok_iff.mp ok
        obtain rfl := advance_ok_iff.mp passed
        obtain ⟨rfl, rfl⟩ := pure_ok_iff.mp ok
        exact ⟨rfl, closing ▸ skips⟩
      next => simp at ok
  · rintro ⟨rfl, skips⟩
    rw [closeVariant, bind_of_ok (peekToken_of_skips skips (by decide))]
    rfl

/-- The name of the only member of an object, behind the brace. -/
def onlyMember (known : List String) : Scan String := do
  let name ← knownName known
  colon
  unit
  closeVariant name

theorem onlyMember_ok_iff {known : List String} {name : String} {input rest : List UInt8} :
    onlyMember known input = .ok (name, rest) ↔ name ∈ known ∧
      ∃ key named value behind, StringSpelling name key ∧ Skips input (key ++ named) ∧
        Skips named (0x3A :: value) ∧ Skips value ([0x6E, 0x75, 0x6C, 0x6C] ++ behind) ∧
          Skips behind (0x7D :: rest) := by
  simp only [onlyMember, bind_ok_iff, closeVariant_ok_iff]
  constructor
  · rintro ⟨_, named, start, _, value, separated, _, behind, null, rfl, closed⟩
    obtain ⟨member, key, spelled, start⟩ := knownName_ok_iff.mp start
    exact ⟨member, key, named, value, behind, spelled, start, colon_ok_iff.mp separated,
      unit_ok_iff.mp null, closed⟩
  · rintro ⟨member, key, named, value, behind, spelled, start, separated, null, closed⟩
    exact ⟨name, named, knownName_ok_iff.mpr ⟨member, key, spelled, start⟩, (), value,
      colon_ok_iff.mpr separated, (), behind, unit_ok_iff.mpr null, rfl, closed⟩

/-- The text of an object whose one member is null, by its parts. -/
theorem value_null_member_iff {name : String} {core : List UInt8} :
    Value (.object [(name, .null)]) core ↔
      ∃ before key after front back, Blanks before ∧ StringSpelling name key ∧ Blanks after ∧
        Blanks front ∧ Blanks back ∧ core = 0x7B :: (before ++ (key ++ (after ++ 0x3A ::
          (front ++ ([0x6E, 0x75, 0x6C, 0x6C] ++ (back ++ [0x7D])))))) := by
  constructor
  · rintro (_ | _ | _ | _ | _ | _ | ⟨_ | ⟨before, ⟨key, after, front, ⟨⟩⟩, back, ⟨⟩⟩⟩)
    exact ⟨_, _, _, _, _, before, key, after, front, back, by simp⟩
  · rintro ⟨_, _, _, _, _, before, key, after, front, back, rfl⟩
    have inside := Entries.some before (Member.mk key after front .null) back .nil
    simpa using Value.object inside

theorem onlyMember_ok_iff_value {known : List String} {name : String} {input rest : List UInt8} :
    onlyMember known input = .ok (name, rest) ↔ name ∈ known ∧
      ∃ core, Value (.object [(name, .null)]) core ∧ 0x7B :: input = core ++ rest := by
  rw [onlyMember_ok_iff]
  refine and_congr_right fun _ => ?_
  simp only [value_null_member_iff]
  constructor
  · rintro ⟨key, _, _, _, spelled, ⟨before, blanks, rfl⟩, ⟨after, blanks₁, rfl⟩,
      ⟨front, blanks₂, rfl⟩, ⟨back, blanks₃, rfl⟩⟩
    exact ⟨_, ⟨before, key, after, front, back, blanks, spelled, blanks₁, blanks₂, blanks₃, rfl⟩,
      by simp⟩
  · rintro ⟨_, ⟨before, key, after, front, back, blanks, spelled, blanks₁, blanks₂, blanks₃,
      rfl⟩, same⟩
    obtain rfl := List.cons.inj same |>.2
    exact ⟨key, _, _, _, spelled, ⟨before, blanks, by simp⟩, ⟨after, blanks₁, rfl⟩,
      ⟨front, blanks₂, rfl⟩, ⟨back, blanks₃, rfl⟩⟩

/-- The reader takes the documents that hold a known name. -/
theorem variant_ok_iff {known : List String} {name : String} {input rest : List UInt8} :
    variant known input = .ok (name, rest) ↔
      name ∈ known ∧ ∃ tree core, HoldsName name tree ∧ Value tree core ∧
        Skips input (core ++ rest) := by
  constructor
  · intro ok
    obtain ⟨byte, mid, start, behind⟩ := bind_ok_iff.mp ok
    obtain ⟨tail, rfl, skips, -⟩ := valueStart_ok_iff.mp start
    -- A quote begins the name itself, a brace the object that has it for its only member.
    split at behind
    next =>
      obtain ⟨member, core, spelled, inside⟩ := knownName_ok_iff.mp behind
      exact ⟨member, _, core, .string, .string spelled, skips.trans inside⟩
    next =>
      split at behind
      next brace =>
        have inside : onlyMember known tail = .ok (name, rest) := behind
        obtain ⟨member, core, value, same⟩ := onlyMember_ok_iff_value.mp inside
        exact ⟨member, _, core, .object, value, same ▸ brace ▸ skips⟩
      next => simp at behind
  · rintro ⟨member, _, core, ⟨⟩ | ⟨⟩, value, skips⟩
    · obtain _ | _ | _ | _ | ⟨spelled⟩ := value
      obtain ⟨inside⟩ := spelled
      rw [variant, bind_of_ok (valueStart_of_skips (by simpa using skips) (by decide)), if_pos rfl]
      exact knownName_ok_iff.mpr ⟨member, _, .mk inside, by simpa using Skips.refl _⟩
    · obtain ⟨tail, split⟩ : ∃ tail, core ++ rest = 0x7B :: tail := by
        obtain ⟨_, _, _, _, _, -, -, -, -, -, rfl⟩ := value_null_member_iff.mp value
        exact ⟨_, rfl⟩
      rw [split] at skips
      rw [variant, bind_of_ok (valueStart_of_skips skips (by decide)), if_neg (by decide),
        if_pos rfl]
      exact onlyMember_ok_iff_value.mpr ⟨member, core, value, split.symm⟩

theorem run_variant_eq_ok_iff {known : List String} {name : String} {text : List UInt8} :
    (variant known).run text = .ok name ↔
      name ∈ known ∧ ∃ tree, HoldsName name tree ∧ Document tree text := by
  rw [run_eq_ok_iff]
  constructor
  · rintro ⟨rest, read, back⟩
    obtain ⟨member, tree, core, holds, value, before, front, rfl⟩ := variant_ok_iff.mp read
    -- A document that holds a name is at most one level deep.
    have shallow : tree.nesting ≤ 127 := by cases holds <;> simp [nesting, nestingMembers]
    exact ⟨member, tree, holds, by simpa using Document.mk front value back shallow⟩
  · rintro ⟨member, tree, holds, ⟨front, value, back, -⟩⟩
    exact ⟨_, variant_ok_iff.mpr ⟨member, tree, _, holds, value, _, front, by simp⟩, back⟩

end Scan

end Json

/-! ## Named values -/

section

variable {α : Type} {name : α → String} {all : List α} {text : List UInt8}

private theorem find?_named (distinct : Function.Injective name) {value : α} (known : value ∈ all) :
    (all.map fun value => (name value, value)).find? (·.1 == name value) =
      some (name value, value) := by
  induction all with
  | nil => simp at known
  | cons first rest ih =>
    by_cases same : name first = name value
    · rw [List.map_cons, List.find?_cons_of_pos (by simpa using same), distinct same]
    · have later : value ∈ rest := (List.mem_cons.mp known).resolve_left fun equal =>
        same (equal ▸ rfl)
      rw [List.map_cons, List.find?_cons_of_neg (by simpa using same), ih later]

/-- A value is read from the documents that hold its name, and from no other text. -/
theorem parseNamed_eq_ok_iff (distinct : Function.Injective name) {value : α}
    (known : value ∈ all) :
    parseNamed (all.map fun value => (name value, value)) text = .ok value ↔
      ∃ tree, Json.HoldsName (name value) tree ∧ Document tree text := by
  have names : (all.map fun value => (name value, value)).map (·.1) = all.map name := by
    simp [Function.comp_def]
  unfold parseNamed
  rw [names]
  constructor
  · intro ok
    split at ok
    next => cases ok
    next read run =>
      obtain ⟨member, holds⟩ := Json.Scan.run_variant_eq_ok_iff.mp run
      obtain ⟨other, known', rfl⟩ := List.mem_map.mp member
      rw [find?_named distinct known'] at ok
      obtain rfl := Except.ok.inj ok
      exact holds
  · intro holds
    have run := Json.Scan.run_variant_eq_ok_iff.mpr ⟨List.mem_map_of_mem known, holds⟩
    rw [run]
    dsimp only
    rw [find?_named distinct known]

/-- A written name is read as its value in either layout. -/
theorem parseNamed_written (distinct : Function.Injective name) {value : α} (known : value ∈ all) :
    parseNamed (all.map fun value => (name value, value))
        (Utf8.ofString (Json.string (name value)).compact) = .ok value ∧
      parseNamed (all.map fun value => (name value, value))
        (Utf8.ofString (Json.string (name value)).pretty) = .ok value :=
  have shallow : (Json.string (name value)).nesting ≤ 127 := Nat.zero_le 127
  ⟨(parseNamed_eq_ok_iff distinct known).mpr
      ⟨_, .string, Json.document_compact trivial shallow⟩,
    (parseNamed_eq_ok_iff distinct known).mpr
      ⟨_, .string, Json.document_pretty trivial shallow⟩⟩

end

namespace Network

theorem name_injective : Function.Injective name := by
  intro network other same
  cases network <;> cases other <;> first | rfl | exact absurd same (by decide)

theorem mem_all (network : Network) : network ∈ all := by cases network <;> decide

theorem parse_eq_ok_iff {network : Network} {text : List UInt8} :
    parse text = .ok network ↔ ∃ tree, Json.HoldsName network.name tree ∧ Document tree text :=
  parseNamed_eq_ok_iff name_injective network.mem_all

theorem parse_toJson (network : Network) :
    parse (Utf8.ofString network.toJson.compact) = .ok network ∧
      parse (Utf8.ofString network.toJson.pretty) = .ok network :=
  parseNamed_written name_injective network.mem_all

end Network

namespace Action

theorem name_injective : Function.Injective name := by
  intro action other same
  cases action <;> cases other <;> first | rfl | exact absurd same (by decide)

theorem mem_all (action : Action) : action ∈ all := by cases action <;> decide

theorem parse_eq_ok_iff {action : Action} {text : List UInt8} :
    parse text = .ok action ↔ ∃ tree, Json.HoldsName action.name tree ∧ Document tree text :=
  parseNamed_eq_ok_iff name_injective action.mem_all

theorem parse_toJson (action : Action) :
    parse (Utf8.ofString action.toJson.compact) = .ok action ∧
      parse (Utf8.ofString action.toJson.pretty) = .ok action :=
  parseNamed_written name_injective action.mem_all

end Action

end TokenIntake
