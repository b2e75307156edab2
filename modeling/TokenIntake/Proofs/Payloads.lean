import TokenIntake.Proofs.Misfits

/-!
# Ways to write a record

A record is read from an object by the names of its fields, so a member under another name does
not matter, wherever it is put in and however many signatures are around it. A payload may be
written as an array of its fields as well, and then it is the same request or no request in both
ways of writing it.
-/

namespace TokenIntake

open Json (Denotes Document)

namespace Json

private theorem lookup_map (f : Json → Json) (key : String) (members : List (String × Json)) :
    lookup key (members.map fun member => (member.1, f member.2)) =
      (lookup key members).map f := by
  induction members with
  | nil => rfl
  | cons member rest ih =>
    simp only [List.map_cons, lookup, ih]
    split <;> rfl

/-- In normal form an object has the last value of each name, in normal form as well. -/
theorem lookup_normal (key : String) (members : List (String × Json)) :
    lookup key (sortMembers (normalMembers members)) =
      (lookup key members.reverse).map normal := by
  rw [lookup_sortMembers, normalMembers_eq_map, ← List.map_reverse, lookup_map]

end Json

/-! ## Members that do not matter -/

/-- Under the name of every field there are values that are read alike, or none. -/
def Fields.ReadAlike : Fields → (members others : List (String × Json)) → Prop
  | .nil, _, _ => True
  | .cons name shape _ rest, members, others =>
    (Json.lookup name members).map shape.ofJson = (Json.lookup name others).map shape.ofJson ∧
      rest.ReadAlike members others

private theorem Fields.readAlike_of_lookup_eq {members others : List (String × Json)} :
    (fields : Fields) →
    (∀ name ∈ fields.names, Json.lookup name members = Json.lookup name others) →
    fields.ReadAlike members others
  | .nil, _ => trivial
  | .cons _ _ _ rest, same => by
    obtain ⟨first, others⟩ := List.forall_mem_cons.mp same
    exact ⟨congrArg _ first, rest.readAlike_of_lookup_eq others⟩

theorem Fields.ReadAlike.symm : {fields : Fields} → {members others : List (String × Json)} →
    fields.ReadAlike members others → fields.ReadAlike others members
  | .nil, _, _, _ => trivial
  | .cons _ _ _ _, _, _, ⟨first, alike⟩ => ⟨first.symm, alike.symm⟩

section

variable {fields : Fields} {members others : List (String × Json)}

theorem Fields.Met.of_readAlike : {fields : Fields} → fields.ReadAlike members others →
    {met : fields.Partial} → fields.Met members met → fields.Met others met
  | .nil, _, (), _ => trivial
  | .cons _ _ _ _, ⟨first, alike⟩, (_, _), ⟨here, behind⟩ =>
    ⟨first.symm.trans here, behind.of_readAlike alike⟩

theorem Fields.RefusedAt.of_readAlike {field : String} {reason : Json.Misfit} :
    {fields : Fields} → fields.ReadAlike members others →
    fields.RefusedAt members field reason → fields.RefusedAt others field reason
  | .cons _ _ _ _, ⟨first, _⟩, .inl ⟨same, refused⟩ => .inl ⟨same, first.symm.trans refused⟩
  | .cons _ _ _ _, ⟨_, alike⟩, .inr later => .inr (later.of_readAlike alike)

/-- The walks over sorted members differ only where members are read differently. -/
theorem Fields.takeMembers_congr (distinct : fields.names.Nodup) (sorted : Json.Sorted members)
    (sorted' : Json.Sorted others) (alike : fields.ReadAlike members others) :
    Fields.takeMembers fields.takeMember members = Fields.takeMembers fields.takeMember others := by
  cases result : Fields.takeMembers fields.takeMember others with
  | ok met =>
    have behind := (Fields.takeMembers_eq_ok_iff distinct sorted'.nodup).mp result
    exact (Fields.takeMembers_eq_ok_iff distinct sorted.nodup).mpr (behind.of_readAlike alike.symm)
  | error reason =>
    obtain ⟨field, refused, least⟩ := (Fields.takeMembers_eq_error_iff distinct sorted').mp result
    exact (Fields.takeMembers_eq_error_iff distinct sorted).mpr
      ⟨field, refused.of_readAlike alike.symm,
        fun other why refused' => least other why (refused'.of_readAlike alike)⟩

theorem Shape.ofJson_object_congr {name : String} (distinct : fields.names.Nodup)
    (sorted : Json.Sorted members) (sorted' : Json.Sorted others)
    (alike : fields.ReadAlike members others) :
    (Shape.record name fields).ofJson (.object members) =
      (Shape.record name fields).ofJson (.object others) := by
  unfold Shape.ofJson
  dsimp only
  rw [Fields.takeMembers_congr distinct sorted sorted' alike]

end

/-- The second document is the first with one more member. It stands in the object of the request
or in that of the payload inside some signatures, and none of the fields there has its name. -/
inductive Padded : RequestKind → Json → Json → Prop
  | here {kind : RequestKind} {front back : List (String × Json)} {name : String} {value : Json}
      (unknown : name ∉ kind.fields.names) :
      Padded kind (.object (front ++ back)) (.object (front ++ (name, value) :: back))
  | member {kind : RequestKind} {front back : List (String × Json)} {payload padded : Json}
      (inside : Padded kind payload padded) :
      Padded (.signed kind) (.object (front ++ ("payload", payload) :: back))
        (.object (front ++ ("payload", padded) :: back))
  | item {kind : RequestKind} {key signature payload padded : Json} {more : List Json}
      (inside : Padded kind payload padded) :
      Padded (.signed kind) (.array (key :: signature :: payload :: more))
        (.array (key :: signature :: padded :: more))

namespace Padded

variable {kind : RequestKind} {document padded : Json}

theorem ofJson_eq (insertion : Padded kind document padded) :
    kind.shape.ofJson document.normal = kind.shape.ofJson padded.normal := by
  induction insertion with
  | @here kind front back name value unknown =>
    obtain ⟨record, shape⟩ := kind.exists_shape_eq
    have distinct := kind.distinct_shape
    rw [shape] at distinct ⊢
    refine Shape.ofJson_object_congr distinct.1 (Json.sorted_sortMembers _)
      (Json.sorted_sortMembers _) (kind.fields.readAlike_of_lookup_eq fun field known => ?_)
    have other : name ≠ field := fun same => unknown (same ▸ known)
    rw [Json.lookup_normal, Json.lookup_normal]
    simp [Json.lookup_append, Json.lookup, other]
  | @member kind front back payload padded inside ih =>
    have same (key : String) (other : "payload" ≠ key) :
        Json.lookup key (Json.sortMembers
            (Json.normalMembers (front ++ ("payload", payload) :: back))) =
          Json.lookup key (Json.sortMembers
            (Json.normalMembers (front ++ ("payload", padded) :: back))) := by
      rw [Json.lookup_normal, Json.lookup_normal]
      simp [Json.lookup_append, Json.lookup, other]
    refine Shape.ofJson_object_congr kind.signed.distinct_shape.1 (Json.sorted_sortMembers _)
      (Json.sorted_sortMembers _) ⟨congrArg _ (same _ (by decide)),
        congrArg _ (same _ (by decide)), ?_, trivial⟩
    rw [Json.lookup_normal, Json.lookup_normal]
    -- A later payload would count instead, on both sides.
    cases later : Json.lookup "payload" back.reverse <;>
      simp [Json.lookup_append, Json.lookup, later, ih]
  | @item kind key signature payload padded more inside ih =>
    simp only [Json.normal, Json.normalItems, Shape.ofJson, Fields.ofItems, ih, List.length_cons]

theorem answer_eq (insertion : Padded kind document padded) :
    kind.ofJson document.normal = kind.ofJson padded.normal := by
  have same := insertion.ofJson_eq
  cases insertion with
  | here | member =>
    rw [Json.normal, Json.normal] at same ⊢
    unfold RequestKind.ofJson
    dsimp only
    rw [same]
  | item => rfl

end Padded

namespace RequestKind

/-- A member that is no field of the record it is put into changes neither the answer nor the
events, whatever its name and its value and wherever it is put. -/
theorem parse_eq_of_padded (kind : RequestKind) {body body' : List UInt8}
    {document padded : Json} (spelled : Document document body) (spelled' : Document padded body')
    (insertion : Padded kind document padded) : kind.parse body = kind.parse body' := by
  have denotes : Denotes body document.normal := ⟨document, spelled, rfl⟩
  have denotes' : Denotes body' padded.normal := ⟨padded, spelled', rfl⟩
  rw [parse_of_denotes denotes, parse_of_denotes denotes', insertion.answer_eq]

/-- A withdrawal signed twice, the inner signature written as an array and the innermost payload
with a member of its own. -/
def withdrawal (memo : List (String × Json)) : Json :=
  .object [("public_key", .string "02ab"), ("signature", .string "s"),
    ("payload", .array [.string "03cd", .string "t", .object (("offer_hash", .null) :: memo)])]

theorem parse_withdrawal_memo :
    parse (.signed (.signed .deleteOffer)) (Utf8.ofString (withdrawal []).compact) =
      parse (.signed (.signed .deleteOffer))
        (Utf8.ofString (withdrawal [("offer", .array [.integer 1])]).compact) := by
  have whole (memo : List (String × Json)) (inside : Json.WholeMembers memo) :
      (withdrawal memo).Whole := by
    simp [withdrawal, Json.Whole, Json.WholeMembers, Json.WholeItems, inside]
  have memo : Json.WholeMembers [("offer", .array [.integer 1])] := by
    simp [Json.Whole, Json.WholeMembers, Json.WholeItems, Json.integer, Word.fitsSigned_iff]
  refine parse_eq_of_padded _ (Json.document_compact (whole _ trivial) (by decide))
    (Json.document_compact (whole _ memo) (by decide)) ?_
  have inner : Padded .deleteOffer (.object ([("offer_hash", .null)] ++ []))
      (.object ([("offer_hash", .null)] ++ [("offer", .array [.integer 1])])) :=
    .here (by decide)
  exact @Padded.member _ [_, _] [] _ _ (.item inner)

/-! ## Payloads by name and by position -/

/-- The answer says that the body fits no request. -/
def MisfitAnswer {α : Type} (answer : Except RpcError α) : Prop :=
  ∃ text, answer = .error (.parseError ("Invalid request body: " ++ text))

/-- A payload with a key and a signature. -/
def envelope (key signature : String) (payload : Json) : Json :=
  .object [("public_key", .string key), ("signature", .string signature), ("payload", payload)]

end RequestKind

private theorem Fields.length_names : (fields : Fields) → fields.names.length = fields.arity
  | .nil => rfl
  | .cons _ _ _ rest => congrArg (· + 1) rest.length_names

theorem Shape.fits_object_iff {name : String} {fields : Fields} {members : List (String × Json)}
    {row : fields.Row} :
    (Shape.record name fields).Fits (.object members) row ↔ fields.FitMembers members row := by
  unfold Shape.Fits
  simp

theorem Shape.fits_array_iff {name : String} {fields : Fields} {items : List Json}
    {row : fields.Row} :
    (Shape.record name fields).Fits (.array items) row ↔
      items.length ≤ fields.arity ∧ fields.FitItems items row := by
  unfold Shape.Fits
  simp

/-- Fields fit the members that are named after them exactly if they fit the items. -/
theorem Fields.fitMembers_iff_fitItems : (fields : Fields) → fields.names.Nodup →
    {members : List (String × Json)} → {items : List Json} → {row : fields.Row} →
    (∀ name ∈ fields.names, Json.lookup name members = Json.lookup name (fields.names.zip items)) →
    (fields.FitMembers members row ↔ fields.FitItems items row)
  | .nil, _, _, _, (), _ => by
    unfold Fields.FitMembers Fields.FitItems
    exact Iff.rfl
  | .cons name shape required rest, distinct, members, items, (value, row), same => by
    obtain ⟨new, distinct⟩ := List.nodup_cons.mp distinct
    obtain ⟨first, others⟩ := List.forall_mem_cons.mp same
    cases items with
    | nil =>
      -- No name is left with a value, so every field is absent in both.
      have ih : rest.FitMembers members row ↔ rest.FitItems [] row :=
        rest.fitMembers_iff_fitItems distinct (by simpa using others)
      unfold Fields.FitMembers Fields.FitItems
      simp [first, names, Json.lookup, ih]
    | cons item items =>
      -- The first name does not come again, so it hides none of the later values.
      have ih : rest.FitMembers members row ↔ rest.FitItems items row := by
        refine rest.fitMembers_iff_fitItems distinct fun key known => ?_
        have other : name ≠ key := fun equal => new (equal ▸ known)
        rw [others key known]
        simp [names, Json.lookup, other]
      unfold Fields.FitMembers Fields.FitItems
      simp [first, names, Json.lookup, ih]

private theorem Fields.mem_names_of_required : (fields : Fields) → {field : String} →
    field ∈ fields.required → field ∈ fields.names
  | .cons name shape required rest, field, needed => by
    unfold Fields.required at needed
    split at needed
    · rcases List.mem_cons.mp needed with rfl | later
      · exact List.mem_cons_self
      · exact List.mem_cons_of_mem _ (rest.mem_names_of_required later)
    · exact List.mem_cons_of_mem _ (rest.mem_names_of_required needed)

/-- No items fit if a field behind the last of them has to be present. -/
private theorem Fields.not_fitItems : (fields : Fields) → fields.names.Nodup → {items : List Json} →
    {row : fields.Row} → {field : String} → field ∈ fields.required →
    field ∈ fields.names.drop items.length → ¬ fields.FitItems items row
  | .cons name shape required rest, distinct, [], (value, row), field, needed, _ => by
    rintro ⟨⟨optional, -⟩, fits⟩
    rw [Fields.required, optional, if_neg Bool.false_ne_true] at needed
    have later : field ∈ rest.names.drop ([] : List Json).length :=
      rest.mem_names_of_required needed
    exact rest.not_fitItems (List.nodup_cons.mp distinct).2 needed later fits
  | .cons name shape required rest, distinct, item :: items, (value, row), field, needed,
      leftOff => by
    obtain ⟨new, distinct⟩ := List.nodup_cons.mp distinct
    rintro ⟨-, fits⟩
    -- The names are different, so a name that comes later is not the first.
    have other : field ≠ name := by
      rintro rfl
      exact new (List.mem_of_mem_drop leftOff)
    refine rest.not_fitItems distinct ?_ leftOff fits
    unfold Fields.required at needed
    split at needed
    · exact List.mem_of_ne_of_mem other needed
    · exact needed

/-- A record fits an object with values under the names of its fields exactly if it fits the
array of these values. -/
theorem Shape.fits_named_iff_positional {name : String} {fields : Fields} {values : List Json}
    {row : fields.Row} (distinct : fields.names.Nodup)
    (enough : values.length ≤ fields.names.length) :
    (Shape.record name fields).Fits (Json.object (fields.names.zip values)).normal row ↔
      (Shape.record name fields).Fits (Json.array values).normal row := by
  have zipped : (fields.names.zip values).map (fun member => (member.1, member.2.normal)) =
      fields.names.zip (Json.normalItems values) := by
    rw [Json.normalItems_eq_map, List.zip_map_right]
    rfl
  have short : (Json.normalItems values).length = values.length := by
    rw [Json.normalItems_eq_map, List.length_map]
  -- Every name is there once, so the last value under a name is the only one.
  have fresh : ((fields.names.zip (Json.normalItems values)).map Prod.fst).Nodup := by
    have taken : fields.names.zip (Json.normalItems values) =
        (fields.names.take values.length).zip (Json.normalItems values) := by
      rw [List.zip_eq_zip_take_min, short, Nat.min_eq_right enough, ← short, List.take_length]
    have covered : (fields.names.take values.length).length ≤ (Json.normalItems values).length := by
      rw [List.length_take, short]
      exact Nat.min_le_left ..
    rw [taken, List.map_fst_zip covered]
    exact distinct.sublist (List.take_sublist _ _)
  have lookups : ∀ key ∈ fields.names,
      Json.lookup key (Json.sortMembers (Json.normalMembers (fields.names.zip values))) =
        Json.lookup key (fields.names.zip (Json.normalItems values)) := by
    intro key known
    rw [Json.lookup_sortMembers, Json.normalMembers_eq_map, zipped,
      Json.lookup_reverse_of_nodup fresh]
  rw [Json.normal, Json.normal, fits_object_iff, fits_array_iff, short, ← fields.length_names,
    fields.fitMembers_iff_fitItems distinct lookups, and_iff_right enough]

namespace RequestKind

theorem fits_envelope_iff {kind : RequestKind} {key signature : String} {payload : Json}
    {request : (signed kind).Request} :
    (signed kind).shape.Fits (envelope key signature payload).normal
        (toValue (.signed kind) request) ↔
      request.publicKey = key ∧ request.signature = signature ∧
        kind.shape.Fits payload.normal (kind.toValue request.payload) := by
  obtain ⟨publicKey, signature', inner⟩ := request
  have members (field : String) : Json.lookup field (Json.sortMembers (Json.normalMembers
      [("public_key", .string key), ("signature", .string signature), ("payload", payload)])) =
        (Json.lookup field [("payload", payload), ("signature", .string signature),
          ("public_key", .string key)]).map Json.normal := Json.lookup_normal ..
  have text (expected found : String) :
      Shape.text.Fits (.string found) expected ↔ expected = found := by
    unfold Shape.Fits
    simp [eq_comm]
  rw [envelope, Json.normal, Shape.fits_object_iff]
  simp [Fields.FitMembers, members, Json.lookup, Json.normal, toValue, text]

section

variable {kind : RequestKind} {body : List UInt8} {key signature : String} {payload : Json}
  (denotes : Denotes body (envelope key signature payload).normal)

include denotes

private theorem parse_envelope_of_misfit
    (none : ∀ request, ¬ kind.shape.Fits payload.normal (kind.toValue request)) :
    MisfitAnswer (parse (.signed kind) body).answer := by
  rw [parse_of_denotes denotes]
  exact ofJson_of_misfit (ordered_of_denotes denotes)
    fun request fits => none _ (fits_envelope_iff.mp fits).2.2

private theorem parse_envelope_of_fits {request : kind.Request}
    (fits : kind.shape.Fits payload.normal (kind.toValue request)) :
    parse (.signed kind) body = accept (.signed kind) ⟨key, signature, request⟩ := by
  rw [parse_of_denotes denotes]
  exact ofJson_of_fits (ordered_of_denotes denotes) (fits_envelope_iff.mpr ⟨rfl, rfl, fits⟩)

end

/-- A payload written as an array of its fields is read like the object with these fields: either
both are the same request, or neither is one. Only fields that need not be present may be left off
behind the last item. -/
theorem parse_positional (kind : RequestKind) (key signature : String) (values : List Json)
    {named positional : List UInt8} (enough : values.length ≤ kind.fields.names.length)
    (byName : Denotes named
      (envelope key signature (.object (kind.fields.names.zip values))).normal)
    (byPosition : Denotes positional (envelope key signature (.array values)).normal) :
    (MisfitAnswer (parse (.signed kind) named).answer ∧
        MisfitAnswer (parse (.signed kind) positional).answer ∨
      (parse (.signed kind) named).answer = (parse (.signed kind) positional).answer) ∧
    ∀ field ∈ kind.fields.required, field ∈ kind.fields.names.drop values.length →
      MisfitAnswer (parse (.signed kind) positional).answer := by
  have same (value : kind.shape.Value) :
      kind.shape.Fits (Json.object (kind.fields.names.zip values)).normal value ↔
        kind.shape.Fits (Json.array values).normal value := by
    obtain ⟨record, shape⟩ := kind.exists_shape_eq
    have distinct := kind.distinct_shape
    revert value
    rw [shape] at distinct ⊢
    exact fun row => Shape.fits_named_iff_positional distinct.1 enough
  constructor
  -- Both forms fit as the same values, so they are read as one request or refused together.
  · by_cases fits : ∃ request, kind.shape.Fits (Json.array values).normal (kind.toValue request)
    · obtain ⟨request, fits⟩ := fits
      right
      rw [parse_envelope_of_fits byName ((same _).mpr fits), parse_envelope_of_fits byPosition fits]
    · have none := not_exists.mp fits
      have none' (request : kind.Request) (fits : kind.shape.Fits _ (kind.toValue request)) :=
        none request ((same _).mp fits)
      exact .inl ⟨parse_envelope_of_misfit byName none', parse_envelope_of_misfit byPosition none⟩
  · intro field needed leftOff
    obtain ⟨record, shape⟩ := kind.exists_shape_eq
    have distinct := kind.distinct_shape
    have none : kind.shape.Misfits (Json.array values).normal := by
      rw [shape] at distinct ⊢
      intro row fits
      rw [Json.normal, Shape.fits_array_iff, Json.normalItems_eq_map] at fits
      exact kind.fields.not_fitItems distinct.1 needed (by simpa using leftOff) fits.2
    exact parse_envelope_of_misfit byPosition (misfits_iff.mp none)

/-- An envelope is written as a text that denotes it. -/
private theorem denotes_envelope (key signature : String) {payload : Json} (whole : payload.Whole)
    (shallow : payload.nesting ≤ 126) :
    Denotes (Utf8.ofString (envelope key signature payload).compact)
      (envelope key signature payload).normal := by
  refine ⟨_, Json.document_compact ⟨trivial, trivial, whole, trivial⟩ ?_, rfl⟩
  simp [envelope, Json.nesting, Json.nestingMembers]
  omega

/-- A compressed key, as its digits are written. -/
def someKey : String := String.ofList ('0' :: '2' :: List.replicate 64 'a')

/-- The fields of a mint up to its tags: those behind need not be present. -/
def shortMint : List Json := [.string "Token", .integer 1, .string "d", .array [.string "a"]]

private theorem whole_shortMint : Json.WholeItems shortMint := by
  simp [shortMint, Json.Whole, Json.WholeItems, Json.integer, Word.fitsSigned_iff]

private theorem accepts_shortMint : ∃ request, (parse (.signed .mint)
    (Utf8.ofString (envelope someKey "s" (.array shortMint)).compact)).answer = .ok request := by
  have denotes : Denotes _ (envelope someKey "s" (.array shortMint)).normal :=
    denotes_envelope someKey "s" whole_shortMint (by decide)
  let payload : MintPayload := ⟨"Token", 1, "d", ["a"], none, "", none⟩
  have fits : mint.shape.Fits (Json.array shortMint).normal (mint.toValue payload) := by
    have tags : (Shape.list .text).Fits (.array [.string "a"]) ["a"] :=
      ⟨_, rfl, .cons (by unfold Shape.Fits; rfl) .nil⟩
    exact Shape.fits_array_iff.mpr ⟨by decide, rfl, rfl, rfl, tags, ⟨rfl, rfl⟩, ⟨rfl, rfl⟩,
      ⟨rfl, rfl⟩, trivial⟩
  have inOrder : (review (.signed .mint) ⟨someKey, "s", payload⟩).answer = .ok () := by decide
  refine ⟨⟨someKey, "s", payload⟩, ?_⟩
  rw [parse_envelope_of_fits denotes fits, accept_answer, inOrder]

/-- A mint whose optional fields are left off is the same request in both ways of writing it. A buy
offer of which only the offerer is given is none in either: the seller need not be present, the
hash of the mint has to. -/
theorem parse_positional_of_short_arrays :
    (∃ request,
      (parse (.signed .mint) (Utf8.ofString (envelope someKey "s"
          (.object (mint.fields.names.zip shortMint))).compact)).answer = .ok request ∧
        (parse (.signed .mint) (Utf8.ofString (envelope someKey "s"
          (.array shortMint)).compact)).answer = .ok request) ∧
    (MisfitAnswer (parse (.signed .buyOffer) (Utf8.ofString (envelope "02ab" "s"
          (.object [("offerer_address", .string "a")])).compact)).answer ∧
        MisfitAnswer (parse (.signed .buyOffer) (Utf8.ofString (envelope "02ab" "s"
          (.array [.string "a"])).compact)).answer ∨
      (parse (.signed .buyOffer) (Utf8.ofString (envelope "02ab" "s"
          (.object [("offerer_address", .string "a")])).compact)).answer =
        (parse (.signed .buyOffer) (Utf8.ofString (envelope "02ab" "s"
          (.array [.string "a"])).compact)).answer) ∧
    MisfitAnswer (parse (.signed .buyOffer) (Utf8.ofString (envelope "02ab" "s"
      (.array [.string "a"])).compact)).answer := by
  constructor
  · have whole : (Json.object (mint.fields.names.zip shortMint)).Whole := by
      simp [shortMint, MintPayload.fields, Fields.names, Json.Whole, Json.WholeMembers,
        Json.WholeItems, Json.integer, Word.fitsSigned_iff]
    have named := denotes_envelope someKey "s" whole (by decide)
    have positional : Denotes _ (envelope someKey "s" (.array shortMint)).normal :=
      denotes_envelope someKey "s" whole_shortMint (by decide)
    obtain ⟨alike, -⟩ := parse_positional .mint someKey "s" shortMint (by decide) named positional
    obtain ⟨request, accepted⟩ := accepts_shortMint
    -- One form is accepted, so they are not both misfits.
    rcases alike with ⟨-, text, misfit⟩ | same
    · cases accepted.symm.trans misfit
    · exact ⟨request, same.trans accepted, accepted⟩
  · have named : Denotes _ (envelope "02ab" "s"
        (.object [("offerer_address", .string "a")])).normal :=
      denotes_envelope "02ab" "s" ⟨trivial, trivial⟩ (by decide)
    have positional : Denotes _ (envelope "02ab" "s" (.array [.string "a"])).normal :=
      denotes_envelope "02ab" "s" ⟨trivial, trivial⟩ (by decide)
    obtain ⟨alike, leftOff⟩ := parse_positional .buyOffer "02ab" "s" [.string "a"] (by decide) named
      positional
    exact ⟨alike, leftOff "mint_hash" (by decide) (by decide)⟩

end RequestKind

end TokenIntake
