import TokenIntake.Proofs.Cleaning

/-!
# The cut of a raw value

What a raw value says is cut to its longest beginning, in whole characters, of at most a hundred
bytes. The place of the cut is what a search finds that goes back from the cap byte by byte. The
cut may uncover blanks at the end, which a second cleaning takes away; a third one changes nothing.
-/

namespace TokenIntake.QueryValue

/-- Of all beginnings of the text that fit into `max` bytes it is the longest. -/
structure LongestFit (max : Nat) (text cut : List Char) : Prop where
  beginning : cut <+: text
  fits : (Utf8.encode cut).length ≤ max
  longest : ∀ other, other <+: text → (Utf8.encode other).length ≤ max → other <+: cut

/-- The text without the blanks at its end. -/
def EndTrimmed (text trimmed : List Char) : Prop :=
  ∃ back, text = trimmed ++ back ∧ (∀ c ∈ back, isBlank c = true) ∧
    ∀ c ∈ trimmed.getLast?, isBlank c = false

/-! ## Trimmed texts -/

private theorem dropWhile_append_of_stop {front back : List Char}
    (blank : ∀ c ∈ front, isBlank c = true)
    (stops : ∀ c ∈ back.head?, isBlank c = false) : (front ++ back).dropWhile isBlank = back := by
  rw [List.dropWhile_append_of_pos blank]
  cases back with
  | nil => rfl
  | cons c back => simp [stops c rfl]

theorem trimEnd_eq_iff {text trimmed : List Char} :
    trimEnd text = trimmed ↔ EndTrimmed text trimmed := by
  constructor
  · rintro rfl
    obtain ⟨back, split, blank⟩ := exists_trimEnd text
    refine ⟨back, split, blank, fun c last => ?_⟩
    rw [trimEnd, List.getLast?_reverse] at last
    exact head?_dropWhile_isBlank last
  · rintro ⟨back, rfl, blank, solid⟩
    -- Backwards the blanks stand in front, and the last character kept stops them.
    have behind : ∀ c ∈ back.reverse, isBlank c = true := by simpa using blank
    have stops : ∀ c ∈ trimmed.reverse.head?, isBlank c = false := by simpa using solid
    rw [trimEnd, List.reverse_append, dropWhile_append_of_stop behind stops, List.reverse_reverse]

/-- A raw value says exactly one thing. -/
theorem isCleaned_iff {raw : String} {text : List Char} :
    IsCleaned raw.toList text ↔ text = (clean raw).toList := by
  constructor
  · rintro ⟨front, back, split, blank, blank', first, last⟩
    have kept : raw.toList.filter (fun c => !isStripped c) = front ++ (text ++ back) := by
      rw [← List.append_assoc, ← split]
      refine List.filter_congr fun c _ => Bool.eq_iff_iff.mpr ?_
      simp [isStripped, and_assoc]
    rw [clean, String.toList_ofList, stripAndTrim, kept, trim, trimStart]
    cases text with
    | nil =>
      -- Only blanks are left, so nothing is.
      have nothing : (front ++ ([] ++ back)).dropWhile isBlank = [] := by
        have allBlank : ∀ c ∈ front ++ back, isBlank c = true :=
          List.forall_mem_append.mpr ⟨blank, blank'⟩
        have stops : ∀ c ∈ ([] : List Char).head?, isBlank c = false := by simp
        simpa using dropWhile_append_of_stop allBlank stops
      rw [nothing]
      rfl
    | cons c text =>
      rw [dropWhile_append_of_stop blank (by simpa using first)]
      exact (trimEnd_eq_iff.mpr ⟨back, rfl, blank', last⟩).symm
  · rintro rfl
    exact isCleaned_clean raw

/-! ## The longest beginning that fits -/

theorem longestFit_takeBytes (max : Nat) (text : List Char) :
    LongestFit max text (takeBytes max text) := by
  obtain ⟨back, split, fits, full⟩ := exists_append_takeBytes max text
  generalize takeBytes max text = cut at *
  subst split
  have beginning : cut <+: cut ++ back := List.prefix_append cut back
  refine ⟨beginning, fits, fun other start small => ?_⟩
  -- Of two beginnings of one text one is a beginning of the other.
  rcases List.prefix_or_prefix_of_prefix start beginning with shorter | ⟨more, rfl⟩
  · exact shorter
  · cases more with
    | nil => simp
    | cons c more =>
      have next : c ∈ back.head? := by
        rw [List.prefix_append_right_inj] at start
        obtain ⟨rest, rfl⟩ := start
        rfl
      have tight := full c next
      rw [Utf8.encode_append, List.length_append, length_encode_cons] at small
      omega

/-! ## Cleaned values -/

theorem toList_sanitize (raw : String) :
    (sanitize raw).toList = takeBytes maxSize (clean raw).toList := by
  rw [sanitize_eq_takeBytes, String.toList_ofList]

theorem size_sanitize_le (raw : String) : (Utf8.encode (sanitize raw).toList).length ≤ maxSize := by
  rw [toList_sanitize]
  exact (longestFit_takeBytes maxSize _).fits

theorem sanitize_eq_clean_iff {raw : String} :
    sanitize raw = clean raw ↔ (clean raw).utf8ByteSize ≤ maxSize := by
  rw [size_eq_length, Utf8.ofString]
  constructor
  · intro same
    rw [← same]
    exact size_sanitize_le raw
  · intro fits
    rw [sanitize_eq_takeBytes, takeBytes_of_le fits, String.ofList_toList]

private theorem notMem_of_mem_clean {raw : String} {c : Char} (found : c ∈ (clean raw).toList) :
    c ∉ ['\n', '\r', '\t', '\x00'] := by
  obtain ⟨front, back, split, -⟩ := isCleaned_clean raw
  have among : c ∈ raw.toList.filter (· ∉ ['\n', '\r', '\t', '\x00']) := by
    rw [split]
    simp [found]
  simpa using (List.mem_filter.mp among).2

theorem notMem_of_mem_sanitize {raw : String} {c : Char} (found : c ∈ (sanitize raw).toList) :
    c ∉ ['\n', '\r', '\t', '\x00'] := by
  rw [toList_sanitize] at found
  exact notMem_of_mem_clean ((longestFit_takeBytes maxSize _).beginning.subset found)

/-- What a raw value says has nothing left to remove. -/
theorem clean_clean (raw : String) : clean (clean raw) = clean raw := by
  obtain ⟨-, -, -, -, -, first, last⟩ := isCleaned_clean raw
  have clear : (clean raw).toList.filter (· ∉ ['\n', '\r', '\t', '\x00']) =
      (clean raw).toList := by
    rw [List.filter_eq_self]
    exact fun c found => decide_eq_true (notMem_of_mem_clean found)
  have cleaned : IsCleaned (clean raw).toList (clean raw).toList :=
    ⟨[], [], by simpa using clear, by simp, by simp, first, last⟩
  exact String.toList_inj.mp (isCleaned_iff.mp cleaned).symm

private theorem solid_head_sanitize (raw : String) :
    ∀ c ∈ (sanitize raw).toList.head?, isBlank c = false := by
  obtain ⟨-, -, -, -, -, first, -⟩ := isCleaned_clean raw
  intro c start
  obtain ⟨rest, cut⟩ := List.head?_eq_some_iff.mp start
  obtain ⟨back, split⟩ := (longestFit_takeBytes maxSize (clean raw).toList).beginning
  apply first
  rw [← split, ← toList_sanitize, cut]
  rfl

/-- A raw value is stripped, trimmed and cut to the longest beginning that fits. The search for
the place of the cut always ends, at a byte of the text. -/
theorem sanitize_longest_fit (raw : String) :
    (∀ text, IsCleaned raw.toList text ↔ text = (clean raw).toList) ∧
    LongestFit 100 (clean raw).toList (sanitize raw).toList ∧
    (sanitize raw = clean raw ↔ (clean raw).utf8ByteSize ≤ 100) ∧
    (100 < (clean raw).utf8ByteSize →
      97 ≤ (sanitize raw).utf8ByteSize ∧ (sanitize raw).utf8ByteSize ≤ 100) ∧
    cutBack (Utf8.ofString (clean raw)) (min (clean raw).utf8ByteSize 100) =
      some (sanitize raw).utf8ByteSize ∧
    Utf8.ofString (sanitize raw) =
      (Utf8.ofString (clean raw)).take (sanitize raw).utf8ByteSize ∧
    (∀ c ∈ (sanitize raw).toList, c ∉ ['\n', '\r', '\t', '\x00']) ∧
    ∀ c ∈ (sanitize raw).toList.head?, isBlank c = false := by
  have fit : LongestFit 100 (clean raw).toList (sanitize raw).toList := by
    rw [toList_sanitize]
    exact longestFit_takeBytes 100 _
  refine ⟨fun _ => isCleaned_iff, fit, sanitize_eq_clean_iff, fun long => ?_, ?_, ?_,
    fun _ => notMem_of_mem_sanitize, solid_head_sanitize raw⟩
  · rw [size_eq_length] at long ⊢
    have most : maxSize < (Utf8.encode (takeBytes maxSize (clean raw).toList)).length + 4 :=
      lt_length_takeBytes long
    rw [← toList_sanitize, maxSize] at most
    refine ⟨?_, fit.fits⟩
    rw [Utf8.ofString]
    omega
  · rw [size_eq_length, size_eq_length (sanitize raw), Utf8.ofString, Utf8.ofString,
      toList_sanitize]
    exact cutBack_encode 100 _
  · obtain ⟨back, split⟩ := fit.beginning
    rw [size_eq_length, Utf8.ofString, Utf8.ofString, ← split, Utf8.encode_append,
      List.take_left]

/-! ## Values cleaned again -/

theorem EndTrimmed.self {text trimmed : List Char} (h : EndTrimmed text trimmed) :
    EndTrimmed trimmed trimmed := by
  obtain ⟨-, -, -, solid⟩ := h
  exact ⟨[], by simp, by simp, solid⟩

/-- Of a value that was cleaned before only the blanks at its end are left to remove. -/
theorem endTrimmed_sanitize (raw : String) :
    EndTrimmed (sanitize raw).toList (sanitize (sanitize raw)).toList := by
  obtain ⟨trimmed, trims⟩ : ∃ trimmed, EndTrimmed (sanitize raw).toList trimmed :=
    ⟨_, trimEnd_eq_iff.mp rfl⟩
  obtain ⟨back, split, blank, solid⟩ := trims
  have clear : (sanitize raw).toList.filter (· ∉ ['\n', '\r', '\t', '\x00']) =
      (sanitize raw).toList := by
    rw [List.filter_eq_self]
    exact fun c found => decide_eq_true (notMem_of_mem_sanitize found)
  -- What is left of the second value starts as the first one does.
  have start : ∀ c ∈ trimmed.head?, isBlank c = false := by
    intro c first
    apply solid_head_sanitize raw
    rw [split, List.head?_append, Option.mem_def.mp first]
    rfl
  have cleaned : IsCleaned (sanitize raw).toList trimmed :=
    ⟨[], back, by rw [clear, split]; rfl, by simp, blank, start, solid⟩
  have fits : (Utf8.encode trimmed).length ≤ maxSize := by
    have whole := size_sanitize_le raw
    rw [split, Utf8.encode_append, List.length_append] at whole
    omega
  rw [toList_sanitize (sanitize raw), ← isCleaned_iff.mp cleaned, takeBytes_of_le fits]
  exact ⟨back, split, blank, solid⟩

private theorem length_encode_le_of_sublist {text other : List Char} (part : text.Sublist other) :
    (Utf8.encode text).length ≤ (Utf8.encode other).length := by
  induction part with
  | slnil => exact Nat.le_refl _
  | cons c _ ih =>
    rw [length_encode_cons]
    omega
  | cons_cons c _ ih =>
    rw [length_encode_cons, length_encode_cons]
    omega

private theorem size_clean_le (raw : String) : (clean raw).utf8ByteSize ≤ raw.utf8ByteSize := by
  obtain ⟨front, back, split, -⟩ := isCleaned_clean raw
  have inside : (clean raw).toList.Sublist (front ++ (clean raw).toList ++ back) :=
    (List.sublist_append_right ..).trans (List.sublist_append_left ..)
  rw [← split] at inside
  rw [size_eq_length, size_eq_length raw]
  exact length_encode_le_of_sublist (inside.trans List.filter_sublist)

/-- A second cleaning removes the blanks that the cut has uncovered, and a third one nothing. -/
theorem sanitize_again (raw : String) :
    EndTrimmed (sanitize raw).toList (sanitize (sanitize raw)).toList ∧
    (sanitize (sanitize raw) = sanitize raw ↔
      ∀ c ∈ (sanitize raw).toList.getLast?, isBlank c = false) ∧
    (raw.utf8ByteSize ≤ 100 → ∀ c ∈ (sanitize raw).toList.getLast?, isBlank c = false) ∧
    sanitize (sanitize (sanitize raw)) = sanitize (sanitize raw) := by
  have twice := endTrimmed_sanitize raw
  have trimmed : trimEnd (sanitize raw).toList = (sanitize (sanitize raw)).toList :=
    trimEnd_eq_iff.mpr twice
  refine ⟨twice, ?_, fun short => ?_, ?_⟩
  · rw [← String.toList_inj, ← trimmed, trimEnd_eq_iff]
    constructor
    · rintro ⟨-, -, -, solid⟩
      exact solid
    · intro solid
      exact ⟨[], by simp, by simp, solid⟩
  · -- A short value is not cut, so its end was trimmed.
    have fits : (clean raw).utf8ByteSize ≤ maxSize := Nat.le_trans (size_clean_le raw) short
    obtain ⟨-, -, -, -, -, -, last⟩ := isCleaned_clean raw
    rwa [sanitize_eq_clean_iff.mpr fits]
  · have thrice := endTrimmed_sanitize (sanitize raw)
    rw [← String.toList_inj, ← trimEnd_eq_iff.mpr thrice]
    exact trimEnd_eq_iff.mpr twice.self

end TokenIntake.QueryValue
