import Mathlib.Data.List.Induction
import TokenIntake.Proofs.Objects
import TokenIntake.Proofs.Steps
import TokenIntake.Schema.OfJson

/-!
# Objects read member by member

The reader of a record takes the members of an object one by one and stops at the first that is
refused. What it has met behind some members depends only on what is found under the names of the
fields. So of sorted members it reports the refusal under the least name, and it comes to the end
only if every field that is present is accepted.
-/

namespace TokenIntake

open Json (Misfit)

/-! ## Fields met and fields refused -/

/-- Of the fields, those among the members are met, each with the value that is read there. -/
def Fields.Met : (fields : Fields) → List (String × Json) → fields.Partial → Prop
  | .nil, _, () => True
  | .cons name shape _ rest, members, (met, others) =>
    (Json.lookup name members).map shape.ofJson = met.map .ok ∧ rest.Met members others

/-- The field is among the members, and its value is refused for the reason. -/
def Fields.RefusedAt : Fields → List (String × Json) → String → Misfit → Prop
  | .nil, _, _, _ => False
  | .cons name shape _ rest, members, field, reason =>
    (field = name ∧ (Json.lookup name members).map shape.ofJson = some (.error reason)) ∨
      rest.RefusedAt members field reason

namespace Fields

private theorem met_unmet : (fields : Fields) → fields.Met [] fields.unmet
  | .nil => trivial
  | .cons _ _ _ rest => ⟨rfl, rest.met_unmet⟩

theorem Met.unique : {fields : Fields} → {members : List (String × Json)} →
    {met met' : fields.Partial} → fields.Met members met → fields.Met members met' → met = met'
  | .nil, _, (), (), _, _ => rfl
  | .cons _ _ _ _, _, (_, _), (_, _), ⟨here, behind⟩, ⟨here', behind'⟩ => by
    have same := Option.map_injective (fun _ _ => Except.ok.inj) (here.symm.trans here')
    rw [same, behind.unique behind']

/-- A member under another name changes nothing. -/
theorem Met.append_of_notMem : {fields : Fields} → {seen : List (String × Json)} →
    {met : fields.Partial} → fields.Met seen met → {member : String × Json} →
    member.1 ∉ fields.names → fields.Met (seen ++ [member]) met
  | .nil, _, (), _, _, _ => trivial
  | .cons _ _ _ _, _, (_, _), ⟨here, behind⟩, _, unknown => by
    obtain ⟨other, unknown⟩ := not_or.mp (mt List.mem_cons.mpr unknown)
    refine ⟨?_, behind.append_of_notMem unknown⟩
    rw [← here, Json.lookup_append]
    simp [Json.lookup, other]

theorem Met.not_refusedAt : {fields : Fields} → {members : List (String × Json)} →
    {met : fields.Partial} → fields.Met members met → {field : String} → {reason : Misfit} →
    ¬ fields.RefusedAt members field reason
  | .nil, _, (), _, _, _, refused => refused
  | .cons _ _ _ _, _, (met, _), ⟨here, behind⟩, _, _, refused => by
    rcases refused with ⟨-, refused⟩ | refused
    · rw [here] at refused
      cases met <;> cases refused
    · exact behind.not_refusedAt refused

/-- Where no field is refused, those among the members are met. -/
theorem exists_met : (fields : Fields) → {members : List (String × Json)} →
    (∀ field reason, ¬ fields.RefusedAt members field reason) → ∃ met, fields.Met members met
  | .nil, _, _ => ⟨(), trivial⟩
  | .cons name shape _ rest, members, accepted => by
    obtain ⟨others, behind⟩ := rest.exists_met fun field reason refused =>
      accepted field reason (.inr refused)
    cases read : (Json.lookup name members).map shape.ofJson with
    | none => exact ⟨(none, others), read, behind⟩
    | some result =>
      cases result with
      | ok value => exact ⟨(some value, others), read, behind⟩
      | error reason => exact absurd (.inl ⟨rfl, read⟩) (accepted name reason)

/-- Only what is found under the name of the field counts. -/
theorem RefusedAt.of_lookup_eq {members others : List (String × Json)} {field : String}
    {reason : Misfit} (same : Json.lookup field members = Json.lookup field others) :
    {fields : Fields} → fields.RefusedAt members field reason → fields.RefusedAt others field reason
  | .cons _ _ _ _, .inl ⟨rfl, refused⟩ => .inl ⟨rfl, same ▸ refused⟩
  | .cons _ _ _ _, .inr later => .inr (later.of_lookup_eq same)

theorem RefusedAt.mem_names {members : List (String × Json)} {field : String} {reason : Misfit} :
    {fields : Fields} → fields.RefusedAt members field reason → field ∈ fields.names
  | .cons _ _ _ _, .inl ⟨same, _⟩ => same ▸ List.mem_cons_self
  | .cons _ _ _ _, .inr later => List.mem_cons_of_mem _ later.mem_names

theorem RefusedAt.exists_lookup {members : List (String × Json)} {field : String}
    {reason : Misfit} : {fields : Fields} → fields.RefusedAt members field reason →
    ∃ document, Json.lookup field members = some document
  | .cons _ _ _ _, .inl ⟨rfl, refused⟩ => by
    obtain ⟨document, found, -⟩ := Option.map_eq_some_iff.mp refused
    exact ⟨document, found⟩
  | .cons _ _ _ _, .inr later => later.exists_lookup

theorem RefusedAt.unique {members : List (String × Json)} {field : String}
    {reason reason' : Misfit} : {fields : Fields} → fields.names.Nodup →
    fields.RefusedAt members field reason → fields.RefusedAt members field reason' →
    reason = reason'
  | .cons _ _ _ _, distinct, refused, refused' => by
    obtain ⟨new, distinct⟩ := List.nodup_cons.mp distinct
    rcases refused with ⟨rfl, refused⟩ | refused <;>
      rcases refused' with ⟨same, refused'⟩ | refused'
    · cases refused.symm.trans refused'
      rfl
    -- The name of the first field is no name of a later one.
    · exact absurd refused'.mem_names new
    · exact absurd (same ▸ refused.mem_names) new
    · exact refused.unique distinct refused'

/-! ## One member -/

/-- A new member under the name of a field is met or refused, and one under another name is passed
over. -/
theorem takeMember_cases : (fields : Fields) → fields.names.Nodup →
    {seen : List (String × Json)} → {met : fields.Partial} → fields.Met seen met →
    {key : String} → (value : Json) → Json.lookup key seen = none →
    (∃ met', fields.takeMember key value met = .ok met' ∧
        fields.Met (seen ++ [(key, value)]) met') ∨
      ∃ reason, fields.takeMember key value met = .error reason ∧
        fields.RefusedAt (seen ++ [(key, value)]) key reason
  | .nil, _, _, (), _, _, _, _ => .inl ⟨(), rfl, trivial⟩
  | .cons name shape _ rest, distinct, seen, (met, others), ⟨here, behind⟩, key, value, new => by
    obtain ⟨fresh, distinct⟩ := List.nodup_cons.mp distinct
    have found : Json.lookup key (seen ++ [(key, value)]) = some value := by
      rw [Json.lookup_append, new]
      simp [Json.lookup]
    unfold takeMember
    by_cases same : key = name
    · subst same
      -- The name is new, so the field was not met before and is no duplicate.
      obtain rfl : met = none := by simpa [new, eq_comm] using here
      rw [if_pos rfl]
      cases read : shape.ofJson value with
      | ok result =>
        refine .inl ⟨(some result, others), bind_eq_ok_iff.mpr ⟨result, rfl, rfl⟩, ?_,
          behind.append_of_notMem fresh⟩
        rw [found, Option.map_some, read, Option.map_some]
      | error reason =>
        refine .inr ⟨reason, (bind_pure_eq_error_iff _).mpr rfl, .inl ⟨rfl, ?_⟩⟩
        rw [found, Option.map_some, read]
    · rw [if_neg same]
      rcases rest.takeMember_cases distinct behind value new with
        ⟨others', taken, behind'⟩ | ⟨reason, stops, refused⟩
      · refine .inl ⟨(met, others'), bind_eq_ok_iff.mpr ⟨others', taken, rfl⟩, ?_, behind'⟩
        rw [← here, Json.lookup_append]
        simp [Json.lookup, same]
      · exact .inr ⟨reason, (bind_pure_eq_error_iff _).mpr stops, .inr refused⟩

/-! ## All members -/

variable {fields : Fields} {members : List (String × Json)}

private theorem takeMembers_append (seen : List (String × Json)) (member : String × Json) :
    takeMembers fields.takeMember (seen ++ [member]) =
      takeMembers fields.takeMember seen >>= fields.takeMember member.1 member.2 := by
  simp [takeMembers, List.foldlM_append]

/-- Either every member is taken, or those in front of a refused one are. -/
theorem takeMembers_cases (distinct : fields.names.Nodup) (once : (members.map Prod.fst).Nodup) :
    (∃ met, takeMembers fields.takeMember members = .ok met ∧ fields.Met members met) ∨
      ∃ before member after reason, members = before ++ member :: after ∧
        takeMembers fields.takeMember members = .error reason ∧
        (∃ met, fields.Met before met) ∧ fields.RefusedAt members member.1 reason := by
  -- The members are added at the end, so the reader is followed from what it has met before.
  induction members using List.reverseRecOn with
  | nil => exact .inl ⟨fields.unmet, rfl, fields.met_unmet⟩
  | append_singleton seen member ih =>
    rw [List.map_append, List.nodup_append] at once
    obtain ⟨once, -, apart⟩ := once
    have new : Json.lookup member.1 seen = none := Json.lookup_eq_none_iff.mpr fun other found =>
      apart _ (List.mem_map_of_mem found) _ List.mem_cons_self
    rw [takeMembers_append]
    rcases ih once with
      ⟨met, taken, behind⟩ | ⟨before, stop, after, reason, rfl, stops, met, refused⟩
    · rw [taken]
      rcases fields.takeMember_cases distinct behind member.2 new with
        ⟨met', taken, behind⟩ | ⟨reason, stops, refused⟩
      · exact .inl ⟨met', taken, behind⟩
      · exact .inr ⟨seen, member, [], reason, rfl, stops, ⟨met, behind⟩, refused⟩
    · refine .inr ⟨before, stop, after ++ [member], reason, by simp, by rw [stops]; rfl, met, ?_⟩
      obtain ⟨document, found⟩ := refused.exists_lookup
      refine refused.of_lookup_eq ?_
      rw [Json.lookup_append _ _ [member], found, Option.some_or]

/-- All members are taken exactly if every field among them is accepted. -/
theorem takeMembers_eq_ok_iff (distinct : fields.names.Nodup)
    (once : (members.map Prod.fst).Nodup) {met : fields.Partial} :
    takeMembers fields.takeMember members = .ok met ↔ fields.Met members met := by
  rcases takeMembers_cases distinct once with
    ⟨met', taken, behind⟩ | ⟨_, _, _, _, _, stops, _, refused⟩
  · rw [taken, Except.ok.injEq]
    constructor
    · rintro rfl
      exact behind
    · exact behind.unique
  · rw [stops]
    exact iff_of_false nofun fun behind => behind.not_refusedAt refused

/-- Where sorted members are read up to, the field under the least name is refused. -/
private theorem exists_least_of_takeMembers (distinct : fields.names.Nodup)
    (sorted : Json.Sorted members)
    {reason : Misfit} (stops : takeMembers fields.takeMember members = .error reason) :
    ∃ field, fields.RefusedAt members field reason ∧
      ∀ other why, fields.RefusedAt members other why → field ≤ other := by
  rcases takeMembers_cases distinct sorted.nodup with
    ⟨met, taken, -⟩ | ⟨before, member, after, reason', rfl, stops', ⟨met, behind⟩, refused⟩
  · cases stops.symm.trans taken
  · cases stops.symm.trans stops'
    refine ⟨member.1, refused, fun other why refused' => String.not_lt.mp fun less => ?_⟩
    -- A lesser name is found in front of the member, where everything was accepted.
    have sorted : Json.Sorted (member :: after) := sorted.of_append_right
    have absent : Json.lookup other (member :: after) = none := by
      refine Json.lookup_of_before (List.forall_mem_cons.mpr ⟨less, fun later found => ?_⟩)
      exact String.lt_trans less ((Json.sorted_cons_iff.mp sorted).1 later found)
    refine behind.not_refusedAt (refused'.of_lookup_eq ?_)
    rw [Json.lookup_append, absent, Option.or_none]

/-- Of sorted members the refusal under the least name is reported. -/
theorem takeMembers_eq_error_iff (distinct : fields.names.Nodup) (sorted : Json.Sorted members)
    {reason : Misfit} : takeMembers fields.takeMember members = .error reason ↔
      ∃ field, fields.RefusedAt members field reason ∧
        ∀ other why, fields.RefusedAt members other why → field ≤ other := by
  refine ⟨exists_least_of_takeMembers distinct sorted, ?_⟩
  rintro ⟨field, refused, least⟩
  cases result : takeMembers fields.takeMember members with
  | ok met =>
    have behind := (takeMembers_eq_ok_iff distinct sorted.nodup).mp result
    exact absurd refused behind.not_refusedAt
  | error reason' =>
    obtain ⟨field', refused', least'⟩ := exists_least_of_takeMembers distinct sorted result
    obtain rfl := String.le_antisymm (least _ _ refused') (least' _ _ refused)
    rw [refused.unique distinct refused']

end Fields

end TokenIntake
