import TokenIntake.Proofs.Verdicts

/-!
# Tags in one value

The command line takes all tags in one value, with a comma between each two of them. Such a value
falls apart into the tags that it was made of, and every value is made of some, so a run tells the
verdict of the library on the very list, places of tags included. Only a single empty tag cannot be
written: the empty value has no tags.
-/

namespace TokenIntake.Cli

open FieldKind (tagsOf)

private theorem toList_join (tags : List String) :
    (",".intercalate tags).toList = Parts.join ',' (tags.map String.toList) :=
  String.toList_intercalate

/-- Nothing is written for no tags and for a single empty one. -/
theorem join_eq_empty_iff {tags : List String} :
    ",".intercalate tags = "" ↔ tags = [] ∨ tags = [""] := by
  rw [← String.toList_inj, toList_join]
  match tags with
  | [] => simp [Parts.join]
  | [tag] => simp [Parts.join]
  | _ :: _ :: _ => simp [Parts.join]

theorem tagsOf_join {tags : List String} (bare : ∀ tag ∈ tags, ',' ∉ tag.toList)
    (notLone : tags ≠ [""]) : tagsOf (",".intercalate tags) = tags := by
  unfold tagsOf
  split
  next empty =>
    obtain rfl | lone := join_eq_empty_iff.mp (String.isEmpty_iff.mp empty)
    · rfl
    · exact absurd lone notLone
  next written =>
    -- A text without commas is one tag, so the tags can be had back from any text but the empty one.
    have present : tags.map String.toList ≠ [] := by
      rintro nothing
      obtain rfl := List.map_eq_nil_iff.mp nothing
      exact written rfl
    rw [toList_join, Parts.split_join present (List.forall_mem_map.mpr bare), List.map_map]
    simp [Function.comp_def]

theorem join_tagsOf (value : String) : ",".intercalate (tagsOf value) = value := by
  unfold tagsOf
  split
  next empty => exact (String.isEmpty_iff.mp empty).symm
  next =>
    rw [← String.toList_inj, toList_join, List.map_map]
    simp [Function.comp_def, Parts.join_split]

private theorem comma_notMem_of_mem_tagsOf {value tag : String} (found : tag ∈ tagsOf value) :
    ',' ∉ tag.toList := by
  unfold tagsOf at found
  split at found
  next => cases found
  next =>
    obtain ⟨part, among, rfl⟩ := List.mem_map.mp found
    rw [String.toList_ofList]
    exact Parts.notMem_of_mem_split among

/-- A run on a value of tags tells the verdict on the tags between its commas. -/
theorem tells_run_tags (files : Files) (environment : Option String) (value : String) :
    (run files environment ["tags", "--", value]).Tells (Tags.check (tagsOf value)) := by
  obtain ⟨log, ran⟩ := run_endOfOptions files environment .tags value
  have named : FieldKind.tags.name = "tags" := rfl
  rw [← named, ran]
  exact Finding.tells_ofVerdict _ log

/-- A run on tags with commas between them tells the verdict on these very tags, and every value is
made of tags without commas in this way. -/
theorem run_tells_tags (files : Files) (environment : Option String) :
    (∀ tags : List String, (∀ tag ∈ tags, ',' ∉ tag.toList) → tags ≠ [""] →
      (run files environment ["tags", "--", ",".intercalate tags]).Tells (Tags.check tags)) ∧
    ∀ value : String, ∃ tags : List String, ",".intercalate tags = value ∧
      (∀ tag ∈ tags, ',' ∉ tag.toList) ∧
      (run files environment ["tags", "--", value]).Tells (Tags.check tags) := by
  refine ⟨fun tags bare notLone => ?_, fun value => ⟨tagsOf value, join_tagsOf value,
    fun _ => comma_notMem_of_mem_tagsOf, tells_run_tags files environment value⟩⟩
  have tells := tells_run_tags files environment (",".intercalate tags)
  rwa [tagsOf_join bare notLone] at tells

/-- A comma at the end leaves an empty tag behind it. -/
theorem run_tells_tags_empty_end :
    (run (fun _ => .error .noFile) none ["tags", "--", "art,music,"]).stdout =
      "tag 3 is empty\n" := by
  have tells := (run_tells_tags (fun _ => .error .noFile) none).1 ["art", "music", ""] (by decide)
    (by decide)
  exact (tells.rejected (.emptyTag 3) (by decide)).2

end TokenIntake.Cli
