import TokenIntake.Proofs.Strings
import TokenIntake.Schema.Scan

/-!
# Members taken one by one

The loop that takes the members of an object into a state. What holds of the state in front of a
member and behind it, for every member of the text, holds of the whole object. The rule is one for
loops that must succeed and for loops that may stop with a fault.
-/

namespace TokenIntake.Json

/-- A member by its name and by what its value is spelled for. -/
inductive MemberOf {β : Type} (Spelled : β → List UInt8 → Prop) : String × β → List UInt8 → Prop
  | mk {name : String} {value : β} {key after before core : List UInt8}
      (named : StringSpelling name key) (back : Blanks after) (front : Blanks before)
      (spelled : Spelled value core) :
      MemberOf Spelled (name, value) (key ++ after ++ 0x3A :: (before ++ core))

theorem Member.memberOf {entry : String × Json} {text : List UInt8} (h : Member entry text) :
    MemberOf Value entry text := by
  obtain ⟨named, back, front, spelled⟩ := h
  exact .mk named back front spelled

theorem MemberOf.quoted {β : Type} {Spelled : β → List UInt8 → Prop} {entry : String × β}
    {text : List UInt8} (h : MemberOf Spelled entry text) : text.head? = some 0x22 := by
  obtain ⟨⟨-⟩, -, -, -⟩ := h
  rfl

namespace Scan

/-- A scanner stops with a fault, if it may, or leaves a value and unread bytes as they should be. -/
def Leaves {α : Type} (mayStop : Prop) (post : α → List UInt8 → Prop) :
    Except Fault (α × List UInt8) → Prop
  | .ok (value, unread) => post value unread
  | .error _ => mayStop

section

variable {α β : Type} {mayStop : Prop} {post : α → List UInt8 → Prop}
  {result : Except Fault (α × List UInt8)}

theorem leaves_false_iff {value : α} {rest : List UInt8} :
    Leaves False (fun a unread => a = value ∧ unread = rest) result ↔
      result = .ok (value, rest) := by
  rcases result with _ | ⟨_, _⟩ <;> simp [Leaves]

theorem leaves_true_iff :
    Leaves True post result ↔ ∀ value unread, result = .ok (value, unread) → post value unread := by
  rcases result with _ | ⟨_, _⟩ <;> simp [Leaves]

theorem Leaves.bind {s : Scan α} {f : α → Scan β} {input : List UInt8}
    {behind : β → List UInt8 → Prop} (first : Leaves mayStop post (s input))
    (second : ∀ value unread, post value unread → Leaves mayStop behind (f value unread)) :
    Leaves mayStop behind ((s >>= f) input) := by
  change Leaves mayStop behind (s input >>= fun pair => f pair.1 pair.2)
  cases read : s input with
  | error fault =>
    rw [read] at first
    exact first
  | ok pair =>
    rw [read] at first
    exact second pair.1 pair.2 first

theorem Leaves.imp {weaker : α → List UInt8 → Prop} (h : Leaves mayStop post result)
    (implies : ∀ value unread, post value unread → weaker value unread) :
    Leaves mayStop weaker result := by
  cases result with
  | error fault => exact h
  | ok pair => exact implies _ _ h

/-- What is left was read. -/
theorem Leaves.with_ok (h : Leaves mayStop post result) :
    Leaves mayStop (fun value unread => post value unread ∧ result = .ok (value, unread)) result := by
  cases result with
  | error fault => exact h
  | ok pair => exact ⟨h, rfl⟩

end

/-- A member from its opening quote on. -/
def takeMember {α : Type} (take : String → α → Scan α) (met : α) : Scan α := do
  advance
  let name ← string
  take name met

private theorem membersInto_succ {α : Type} (take : String → α → Scan α) (fuel : Nat) (first : Bool)
    (met : α) : membersInto take (fuel + 1) first met = (do
      if ← nextMember first then
        let met ← takeMember take met
        membersInto take fuel false met
      else pure met) := by
  simp only [membersInto, takeMember, bind_assoc]

private theorem takeMember_named {α : Type} (take : String → α → Scan α) (met : α) {name : String}
    {key : List UInt8} (spelled : StringSpelling name key) (rest : List UInt8) :
    takeMember take met (key ++ rest) = take name met rest := by
  obtain ⟨inside⟩ := spelled
  rename_i text
  have read : string (text ++ 0x22 :: rest) = .ok (name, rest) :=
    string_ok_iff.mpr ⟨text, inside, rfl⟩
  have split : 0x22 :: text ++ [0x22] ++ rest = 0x22 :: (text ++ 0x22 :: rest) := by simp
  rw [split, takeMember, bind_of_ok (advance_ok_iff.mpr rfl), bind_of_ok read]

/-! ## What stands in front of a member -/

section

variable {blanks before core tail : List UInt8}

private theorem nextMember_close (first : Bool) (front : Blanks blanks) :
    nextMember first (blanks ++ 0x7D :: tail) = .ok (false, 0x7D :: tail) :=
  (separates_nextMember ..).mpr ⟨0x7D, tail, rfl, .inl ⟨rfl, rfl, blanks, front, rfl⟩⟩

private theorem nextMember_first (front : Blanks before) (quoted : core.head? = some 0x22) :
    nextMember true (before ++ (core ++ tail)) = .ok (true, core ++ tail) := by
  obtain ⟨more, rfl⟩ := List.head?_eq_some_iff.mp quoted
  exact (separates_nextMember ..).mpr
    ⟨0x22, _, rfl, .inr ⟨rfl, rfl, .inl ⟨rfl, before, front, rfl⟩⟩⟩

private theorem nextMember_comma (front : Blanks blanks) (back : Blanks before)
    (quoted : core.head? = some 0x22) :
    nextMember false (blanks ++ 0x2C :: (before ++ (core ++ tail))) = .ok (true, core ++ tail) := by
  obtain ⟨more, rfl⟩ := List.head?_eq_some_iff.mp quoted
  exact (separates_nextMember ..).mpr ⟨0x22, _, rfl,
    .inr ⟨rfl, rfl, .inr ⟨rfl, _, ⟨blanks, front, rfl⟩, before, back, rfl⟩⟩⟩

end

/-! ## The loop -/

section

variable {α ε : Type} {mayStop : Prop} {Entry : ε → List UInt8 → Prop}
  {take : String → α → Scan α} {Good : List ε → α → Prop}

/-- Every member of the object keeps the state as it should be behind the members seen so far. -/
def TakesEach (mayStop : Prop) (Entry : ε → List UInt8 → Prop) (take : String → α → Scan α)
    (Good : List ε → α → Prop) (entries : List ε) : Prop :=
  ∀ (seen : List ε) (entry : ε) (later : List ε), entries = seen ++ entry :: later →
    ∀ {core rest : List UInt8} {met : α}, Entry entry core → Breaks rest → Good seen met →
      Leaves mayStop (fun met unread => Good (seen ++ [entry]) met ∧ unread = rest)
        (takeMember take met (core ++ rest))

variable (quoted : ∀ entry core, Entry entry core → core.head? = some 0x22)

include quoted

private theorem membersInto_more_leaves {seen entries : List ε} {met : α}
    (takes : TakesEach mayStop Entry take Good (seen ++ entries)) {fuel : Nat}
    {blanks more tail : List UInt8} (spelled : MoreEntries Entry entries more)
    (front : Blanks blanks) (enough : more.length < fuel) (good : Good seen met) :
    Leaves mayStop (fun met unread => Good (seen ++ entries) met ∧ unread = 0x7D :: tail)
      (membersInto take fuel false met (blanks ++ (more ++ 0x7D :: tail))) := by
  -- The blanks behind a member are read with the separator that follows, so they vary.
  induction spelled generalizing fuel blanks seen met with
  | nil =>
    obtain ⟨fuel, rfl⟩ := Nat.exists_eq_add_one.mpr enough
    rw [membersInto_succ, List.nil_append, bind_of_ok (nextMember_close false front)]
    exact ⟨by rwa [List.append_nil], rfl⟩
  | @cons entry others before core after more front' head back rest ih =>
    obtain ⟨fuel, rfl⟩ : ∃ n, fuel = n + 1 := Nat.exists_eq_add_one.mpr (by omega)
    have split : 0x2C :: (before ++ core ++ after ++ more) ++ 0x7D :: tail =
        0x2C :: (before ++ (core ++ (after ++ (more ++ 0x7D :: tail)))) := by simp
    have breaks : Breaks (after ++ (more ++ 0x7D :: tail)) :=
      breaks_append back (breaks_moreEntries (.inr rfl) rest)
    have length : more.length < fuel := by
      simp only [List.length_cons, List.length_append] at enough
      omega
    rw [split, membersInto_succ, bind_of_ok (nextMember_comma front front' (quoted _ _ head))]
    refine (takes _ _ _ rfl head breaks good).bind ?_
    rintro met _ ⟨good, rfl⟩
    rw [List.append_cons] at takes ⊢
    exact ih takes back length good

/-- Members that keep the state as it should be make up an object that does. -/
theorem membersInto_leaves {entries : List ε} {met : α}
    (takes : TakesEach mayStop Entry take Good entries) (good : Good [] met)
    {text : List UInt8} (spelled : Entries Entry entries text) (tail : List UInt8) :
    Leaves mayStop (fun met unread => Good entries met ∧ unread = 0x7D :: tail)
      (bounded (fun fuel => membersInto take fuel true met) (text ++ 0x7D :: tail)) := by
  change Leaves mayStop _ (membersInto take ((text ++ 0x7D :: tail).length + 1) true met _)
  rw [membersInto_succ]
  cases spelled with
  | none blanks =>
    rw [bind_of_ok (nextMember_close true blanks)]
    exact ⟨good, rfl⟩
  | @some entry others before core after more front head back rest =>
    have split : before ++ core ++ after ++ more ++ 0x7D :: tail =
        before ++ (core ++ (after ++ (more ++ 0x7D :: tail))) := by simp
    have breaks : Breaks (after ++ (more ++ 0x7D :: tail)) :=
      breaks_append back (breaks_moreEntries (.inr rfl) rest)
    rw [split, bind_of_ok (nextMember_first front (quoted _ _ head))]
    have behind : TakesEach mayStop Entry take Good ([entry] ++ others) := takes
    refine (takes _ _ _ (List.nil_append _).symm head breaks good).bind ?_
    rintro met _ ⟨good, rfl⟩
    have length : more.length < (before ++ (core ++ (after ++ (more ++ 0x7D :: tail)))).length := by
      simp only [List.length_append, List.length_cons]
      omega
    exact membersInto_more_leaves quoted behind rest back length good

end

section

variable {α β : Type} {mayStop : Prop} {Entry : String × β → List UInt8 → Prop}
  {Spelled : β → List UInt8 → Prop} {take : String → α → Scan α}
  {Good : List (String × β) → α → Prop} {entries : List (String × β)}

/-- Members with names are taken from their colons on. -/
theorem takesEach_of_named (named : ∀ entry text, Entry entry text → MemberOf Spelled entry text)
    (takes : ∀ (seen : List (String × β)) (name : String) (value : β) (later : List (String × β)),
      entries = seen ++ (name, value) :: later →
        ∀ {after core input rest : List UInt8} {met : α}, Blanks after → Spelled value core →
          Skips input (core ++ rest) → Breaks rest → Good seen met →
            Leaves mayStop (fun met unread => Good (seen ++ [(name, value)]) met ∧ unread = rest)
              (take name met (after ++ 0x3A :: input))) :
    TakesEach mayStop Entry take Good entries := by
  intro seen entry later split text rest met spelled breaks good
  obtain ⟨key, back, front, value⟩ := named _ _ spelled
  rename_i name value' key' after before core
  have text : key' ++ after ++ 0x3A :: (before ++ core) ++ rest =
      key' ++ (after ++ 0x3A :: (before ++ (core ++ rest))) := by simp
  rw [text, takeMember_named take met key]
  exact takes _ _ _ _ split back value ⟨before, front, rfl⟩ breaks good

end

end Scan

end TokenIntake.Json
