import TokenIntake.Proofs.Grammar

/-!
# Objects in normal form

An object in normal form has its names in increasing order, so it is determined by the
values that are found under its names. Sorting members finds under a name the last of them:
their order matters only among members of one name, and of those only the last one counts.
-/

namespace TokenIntake.Json

/-- The names stand in increasing order, each of them once. -/
def Sorted (members : List (String × Json)) : Prop :=
  (members.map Prod.fst).Pairwise (· < ·)

theorem sorted_cons_iff {member : String × Json} {rest : List (String × Json)} :
    Sorted (member :: rest) ↔ (∀ other ∈ rest, member.1 < other.1) ∧ Sorted rest := by
  simp only [Sorted, List.map_cons, List.pairwise_cons, List.forall_mem_map]

theorem Sorted.of_append_right {front back : List (String × Json)}
    (sorted : Sorted (front ++ back)) : Sorted back := by
  unfold Sorted at sorted
  rw [List.map_append] at sorted
  exact (List.pairwise_append.mp sorted).2.1

private theorem mem_setMember {name : String} {value : Json} {members : List (String × Json)}
    {member : String × Json} (h : member ∈ setMember name value members) :
    member = (name, value) ∨ member ∈ members := by
  induction members with
  | nil => exact .inl (List.mem_singleton.mp h)
  | cons head rest ih =>
    -- In front of the head, in its place, or among the rest.
    unfold setMember at h
    split at h
    · exact List.mem_cons.mp h
    split at h
    · exact (List.mem_cons.mp h).imp_right (List.mem_cons_of_mem _)
    · obtain rfl | h := List.mem_cons.mp h
      · exact .inr List.mem_cons_self
      · exact (ih h).imp_right (List.mem_cons_of_mem _)

theorem sorted_setMember {name : String} {value : Json} {members : List (String × Json)}
    (sorted : Sorted members) : Sorted (setMember name value members) := by
  induction members with
  | nil => simp [setMember, Sorted]
  | cons member rest ih =>
    obtain ⟨key, old⟩ := member
    obtain ⟨least, sorted'⟩ := sorted_cons_iff.mp sorted
    unfold setMember
    split
    next before =>
      refine sorted_cons_iff.mpr ⟨?_, sorted⟩
      exact List.forall_mem_cons.mpr
        ⟨before, fun other member => String.lt_trans before (least other member)⟩
    next notBefore =>
      split
      next equal =>
        subst equal
        exact sorted_cons_iff.mpr ⟨least, sorted'⟩
      next distinct =>
        -- The order is linear, so a name that is neither before nor equal comes later.
        have after : key < name := String.not_le.mp fun below =>
          distinct (String.le_antisymm below notBefore)
        refine sorted_cons_iff.mpr ⟨?_, ih sorted'⟩
        intro other member
        obtain rfl | member := mem_setMember member
        · exact after
        · exact least _ member

theorem lookup_setMember (name key : String) (value : Json) (members : List (String × Json)) :
    lookup key (setMember name value members) =
      if name = key then some value else lookup key members := by
  by_cases same : name = key
  · rw [if_pos same, ← same, lookup_setMember_self]
  · rw [if_neg same]
    induction members with
    | nil => simp [setMember, lookup, same]
    | cons head rest ih =>
      unfold setMember
      split
      · simp [lookup, same]
      split
      next equal => simp [lookup, same, ← equal]
      · simp [lookup, ih]

theorem lookup_append (key : String) (front back : List (String × Json)) :
    lookup key (front ++ back) = (lookup key front).or (lookup key back) := by
  induction front with
  | nil => rfl
  | cons head rest ih =>
    simp only [List.cons_append, lookup, ih]
    split <;> rfl

theorem lookup_eq_none_iff {key : String} {members : List (String × Json)} :
    lookup key members = none ↔ ∀ member ∈ members, member.1 ≠ key := by
  induction members with
  | nil => simp [lookup]
  | cons head rest ih =>
    rw [List.forall_mem_cons, ← ih]
    by_cases same : head.1 = key <;> simp [lookup, same]

/-! ## Sorting -/

/-- The members read before are sorted, those that follow are set one by one. -/
private theorem sorted_foldl {members start : List (String × Json)} (sorted : Sorted start) :
    Sorted (members.foldl (fun sorted member => setMember member.1 member.2 sorted) start) := by
  induction members generalizing start with
  | nil => exact sorted
  | cons member rest ih => exact ih (sorted_setMember sorted)

private theorem lookup_foldl (key : String) (members start : List (String × Json)) :
    lookup key (members.foldl (fun sorted member => setMember member.1 member.2 sorted) start) =
      (lookup key members.reverse).or (lookup key start) := by
  induction members generalizing start with
  | nil => rfl
  | cons member rest ih =>
    -- What is set now is found only under names that the rest does not set.
    rw [List.foldl_cons, ih, lookup_setMember, List.reverse_cons, lookup_append, Option.or_assoc]
    congr 1
    by_cases same : member.1 = key <;> simp [lookup, same]

private theorem mem_foldl {members start : List (String × Json)} {member : String × Json}
    (found : member ∈
      members.foldl (fun sorted member => setMember member.1 member.2 sorted) start) :
    member ∈ members ∨ member ∈ start := by
  induction members generalizing start with
  | nil => exact .inr found
  | cons head rest ih =>
    rcases ih found with later | found
    · exact .inl (List.mem_cons_of_mem _ later)
    · rcases mem_setMember found with rfl | before
      · exact .inl List.mem_cons_self
      · exact .inr before

private theorem mem_of_mem_sortMembers {members : List (String × Json)} {member : String × Json}
    (found : member ∈ sortMembers members) : member ∈ members :=
  (mem_foldl found).resolve_right List.not_mem_nil

theorem sorted_sortMembers (members : List (String × Json)) : Sorted (sortMembers members) :=
  sorted_foldl .nil

/-- Sorting finds the last member of a name. -/
theorem lookup_sortMembers (key : String) (members : List (String × Json)) :
    lookup key (sortMembers members) = lookup key members.reverse := by
  rw [sortMembers, lookup_foldl, lookup, Option.or_none]

theorem lookup_of_before {key : String} {members : List (String × Json)}
    (before : ∀ member ∈ members, key < member.1) : lookup key members = none := by
  refine lookup_eq_none_iff.mpr fun member found same => ?_
  have less := before member found
  rw [same] at less
  exact String.lt_irrefl _ less

/-- A name in front of sorted members is not found among them. -/
private theorem lookup_of_before_head {key : String} {member : String × Json}
    {rest : List (String × Json)} (sorted : Sorted (member :: rest)) (before : key < member.1) :
    lookup key (member :: rest) = none :=
  lookup_of_before (List.forall_mem_cons.mpr ⟨before, fun other found =>
    String.lt_trans before ((sorted_cons_iff.mp sorted).1 other found)⟩)

/-- Sorted members are determined by what is found under their names. -/
theorem eq_of_lookup_eq {members others : List (String × Json)} (sorted : Sorted members)
    (sorted' : Sorted others) (same : ∀ key, lookup key members = lookup key others) :
    members = others := by
  induction members generalizing others with
  | nil =>
    cases others with
    | nil => rfl
    | cons other rest => simpa [lookup] using same other.1
  | cons member rest ih =>
    cases others with
    | nil => simpa [lookup] using same member.1
    | cons other rest' =>
      obtain ⟨name, value⟩ := member
      obtain ⟨name', value'⟩ := other
      -- The lesser of two different first names would be found on one side only.
      have notBefore : ¬ name < name' := fun before => by
        have found := same name
        rw [lookup_of_before_head sorted' before] at found
        simp [lookup] at found
      have notAfter : ¬ name' < name := fun after => by
        have found := same name'
        rw [lookup_of_before_head sorted after] at found
        simp [lookup] at found
      obtain rfl : name = name' := String.le_antisymm notAfter notBefore
      obtain rfl : value = value' := by simpa [lookup] using same name
      obtain ⟨least, sorted⟩ := sorted_cons_iff.mp sorted
      obtain ⟨least', sorted'⟩ := sorted_cons_iff.mp sorted'
      -- Under the first name itself the rest has nothing, on either side.
      refine congrArg _ (ih sorted sorted' fun key => ?_)
      by_cases first : name = key
      · subst first
        rw [lookup_of_before least, lookup_of_before least']
      · simpa [lookup, first] using same key

/-- Members are sorted alike exactly if the last of each name is the same. -/
theorem sortMembers_eq_iff {members others : List (String × Json)} :
    sortMembers members = sortMembers others ↔
      ∀ key, lookup key members.reverse = lookup key others.reverse := by
  constructor
  · intro same key
    rw [← lookup_sortMembers, same, lookup_sortMembers]
  · intro same
    refine eq_of_lookup_eq (sorted_sortMembers _) (sorted_sortMembers _) fun key => ?_
    rw [lookup_sortMembers, lookup_sortMembers, same]

/-- Among distinct names the order does not matter. -/
theorem lookup_reverse_of_nodup {members : List (String × Json)}
    (distinct : (members.map Prod.fst).Nodup) (key : String) :
    lookup key members.reverse = lookup key members := by
  induction members with
  | nil => rfl
  | cons member rest ih =>
    obtain ⟨new, distinct⟩ := List.nodup_cons.mp distinct
    rw [List.reverse_cons, lookup_append, ih distinct]
    by_cases same : member.1 = key
    · have absent : lookup key rest = none := by
        refine lookup_eq_none_iff.mpr fun other found equal => new ?_
        exact List.mem_map.mpr ⟨other, found, equal.trans same.symm⟩
      simp [lookup, same, absent]
    · simp [lookup, same]

theorem Sorted.nodup {members : List (String × Json)} (sorted : Sorted members) :
    (members.map Prod.fst).Nodup :=
  sorted.imp String.ne_of_lt

theorem sortMembers_of_sorted {members : List (String × Json)} (sorted : Sorted members) :
    sortMembers members = members :=
  eq_of_lookup_eq (sorted_sortMembers _) sorted fun key => by
    rw [lookup_sortMembers, lookup_reverse_of_nodup sorted.nodup]

theorem lookup_of_mem {members : List (String × Json)} {name : String} {value : Json}
    (distinct : (members.map Prod.fst).Nodup) (found : (name, value) ∈ members) :
    lookup name members = some value := by
  induction members with
  | nil => simp at found
  | cons member rest ih =>
    obtain ⟨new, distinct⟩ := List.nodup_cons.mp distinct
    obtain rfl | found := List.mem_cons.mp found
    · simp [lookup]
    · have other : member.1 ≠ name := fun same => new (List.mem_map.mpr ⟨_, found, same.symm⟩)
      simp [lookup, other, ih distinct found]

/-! ## Trees in normal form -/

mutual

/-- Every object in the tree is sorted. -/
def Ordered : Json → Prop
  | .array items => OrderedItems items
  | .object members => Sorted members ∧ OrderedMembers members
  | _ => True

/-- Every object in some trees is sorted. -/
def OrderedItems : List Json → Prop
  | [] => True
  | item :: rest => item.Ordered ∧ OrderedItems rest

/-- Every object in the values of some members is sorted. -/
def OrderedMembers : List (String × Json) → Prop
  | [] => True
  | (_, value) :: rest => value.Ordered ∧ OrderedMembers rest

end

theorem orderedItems_iff {items : List Json} :
    OrderedItems items ↔ ∀ item ∈ items, item.Ordered := by
  induction items with
  | nil => simp [OrderedItems]
  | cons item rest ih => rw [OrderedItems, List.forall_mem_cons, ih]

theorem orderedMembers_iff {members : List (String × Json)} :
    OrderedMembers members ↔ ∀ member ∈ members, member.2.Ordered := by
  induction members with
  | nil => simp [OrderedMembers]
  | cons member rest ih => rw [OrderedMembers, List.forall_mem_cons, ih]

theorem ordered_of_lookup {members : List (String × Json)} (ordered : OrderedMembers members)
    {name : String} {value : Json} (found : lookup name members = some value) : value.Ordered := by
  induction members with
  | nil => simp [lookup] at found
  | cons member rest ih =>
    unfold lookup at found
    split at found
    · obtain rfl := Option.some.inj found
      exact ordered.1
    · exact ih ordered.2 found

private theorem orderedMembers_sortMembers {members : List (String × Json)}
    (ordered : OrderedMembers members) : OrderedMembers (sortMembers members) := by
  rw [orderedMembers_iff] at ordered ⊢
  exact fun member found => ordered member (mem_of_mem_sortMembers found)

mutual

/-- What is put in normal form is ordered. -/
theorem ordered_normal : (tree : Json) → tree.normal.Ordered
  | .array items => by
    rw [normal]
    exact orderedItems_normal items
  | .object members => by
    rw [normal]
    exact ⟨sorted_sortMembers _, orderedMembers_sortMembers (orderedMembers_normal members)⟩
  | .null | .bool _ | .number _ | .string _ => trivial

theorem orderedItems_normal : (items : List Json) → OrderedItems (normalItems items)
  | [] => trivial
  | item :: rest => ⟨item.ordered_normal, orderedItems_normal rest⟩

theorem orderedMembers_normal : (members : List (String × Json)) →
    OrderedMembers (normalMembers members)
  | [] => trivial
  | (_, value) :: rest => ⟨value.ordered_normal, orderedMembers_normal rest⟩

end

mutual

theorem normal_of_ordered : (tree : Json) → tree.Ordered → tree.normal = tree
  | .array items, ordered => by rw [normal, normalItems_of_ordered items ordered]
  | .object members, ⟨sorted, ordered⟩ => by
    rw [normal, normalMembers_of_ordered members ordered, sortMembers_of_sorted sorted]
  | .null, _ | .bool _, _ | .number _, _ | .string _, _ => rfl

theorem normalItems_of_ordered : (items : List Json) → OrderedItems items →
    normalItems items = items
  | [], _ => rfl
  | item :: rest, ⟨ordered, orderedRest⟩ => by
    rw [normalItems, normal_of_ordered item ordered, normalItems_of_ordered rest orderedRest]

theorem normalMembers_of_ordered : (members : List (String × Json)) → OrderedMembers members →
    normalMembers members = members
  | [], _ => rfl
  | (name, value) :: rest, ⟨ordered, orderedRest⟩ => by
    rw [normalMembers, normal_of_ordered value ordered, normalMembers_of_ordered rest orderedRest]

end

theorem normal_ne_null {tree : Json} (present : tree ≠ .null) : tree.normal ≠ .null := by
  cases tree with
  | null => exact absurd rfl present
  | _ => simp [normal]

/-! ## Documents that are the same -/

/-- Two trees are the same document: they differ in the order of members with different names
and in members in front of a later one of the same name, at any depth. -/
inductive SameDocument : Json → Json → Prop
  | refl (tree : Json) : SameDocument tree tree
  | symm {a b : Json} (same : SameDocument a b) : SameDocument b a
  | trans {a b c : Json} (first : SameDocument a b) (second : SameDocument b c) :
      SameDocument a c
  | swap {front back : List (String × Json)} {m n : String × Json} (distinct : m.1 ≠ n.1) :
      SameDocument (.object (front ++ m :: n :: back)) (.object (front ++ n :: m :: back))
  | shadowed {front back : List (String × Json)} {m : String × Json}
      (later : ∃ n ∈ back, n.1 = m.1) :
      SameDocument (.object (front ++ m :: back)) (.object (front ++ back))
  | item {front back : List Json} {a b : Json} (same : SameDocument a b) :
      SameDocument (.array (front ++ a :: back)) (.array (front ++ b :: back))
  | member {front back : List (String × Json)} {name : String} {a b : Json}
      (same : SameDocument a b) :
      SameDocument (.object (front ++ (name, a) :: back)) (.object (front ++ (name, b) :: back))

theorem SameDocument.normal_eq {a b : Json} (same : SameDocument a b) : a.normal = b.normal := by
  have normalObject (members : List (String × Json)) : normal (.object members) =
      .object (sortMembers (members.map fun member => (member.1, member.2.normal))) := by
    rw [normal, normalMembers_eq_map]
  induction same with
  | refl => rfl
  | symm _ ih => exact ih.symm
  | trans _ _ ih ih' => exact ih.trans ih'
  | @swap front back m n distinct =>
    rw [normalObject, normalObject, object.injEq, sortMembers_eq_iff]
    intro key
    simp only [List.map_append, List.map_cons, List.reverse_append, List.reverse_cons,
      List.append_assoc, lookup_append, List.nil_append, List.cons_append, lookup]
    -- At most one of the two neighbours has the name that is looked up.
    congr 1
    by_cases first : m.1 = key
    · have other : n.1 ≠ key := fun second => distinct (first.trans second.symm)
      simp [first, other]
    · simp [first]
  | @shadowed front back m later =>
    rw [normalObject, normalObject, object.injEq, sortMembers_eq_iff]
    intro key
    simp only [List.map_append, List.map_cons, List.reverse_append, List.reverse_cons,
      List.append_assoc, lookup_append, List.nil_append, List.cons_append, lookup]
    by_cases hit : m.1 = key
    · -- The later member of the name is found first on both sides.
      obtain ⟨n, found, name⟩ := later
      have present : lookup key (back.map fun member => (member.1, member.2.normal)).reverse ≠
          none := fun absent => lookup_eq_none_iff.mp absent (n.1, n.2.normal)
        (List.mem_reverse.mpr (List.mem_map.mpr ⟨n, found, rfl⟩)) (name.trans hit)
      obtain ⟨value, found⟩ := Option.ne_none_iff_exists'.mp present
      simp [found]
    · simp [hit]
  | item same ih =>
    rw [normal, normal, normalItems_eq_map, normalItems_eq_map, List.map_append, List.map_append,
      List.map_cons, List.map_cons, ih]
  | member same ih =>
    rw [normalObject, normalObject, List.map_append, List.map_append, List.map_cons, List.map_cons,
      ih]

end TokenIntake.Json
