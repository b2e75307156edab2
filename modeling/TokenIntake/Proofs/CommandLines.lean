import Mathlib.Data.List.TakeDrop
import TokenIntake.Cli.Arguments

/-!
# Command lines

Which command lines ask for which check, said without their reader: a kind of field and a value
in this order, with each of the two options at most once and at any place. The reader holds an
argument back until the next one shows that it is complete, so what it has read is what it has
after it settles, and one step is followed by what the arguments have asked for in all.
-/

namespace TokenIntake.Cli

/-! ## Requests for a check -/

/-- The argument that names the option. -/
def ValueOption.flag : ValueOption → String
  | config => "--config"
  | logFilter => "--log-filter"

/-- The argument is not taken for an option: it has no dash in front, or is a dash alone. -/
def NoOption (text : String) : Prop := text.toList.head? ≠ some '-' ∨ text = "-"

/-- An option and its value, in one argument or in two. -/
inductive ValueOption.Written (option : ValueOption) (value : String) : List String → Prop
  | joined : Written option value [option.flag ++ "=" ++ value]
  | apart (plain : NoOption value) : Written option value [option.flag, value]

/-- What arguments have asked for up to a place. -/
structure Wish where
  config : Option String
  logFilter : Option String
  kind : Option FieldKind
  value : Option String

/-- The arguments have asked for what the wish says, and any of them may be followed by more. -/
inductive Asks : List String → Wish → Prop
  | nothing : Asks [] ⟨none, none, none, none⟩
  | config {front more : List String} {wish : Wish} {path : String} (asks : Asks front wish)
      (once : wish.config = none) (present : path ≠ "")
      (written : ValueOption.config.Written path more) :
      Asks (front ++ more) { wish with config := some path }
  | logFilter {front more : List String} {wish : Wish} {filter : String} (asks : Asks front wish)
      (once : wish.logFilter = none) (written : ValueOption.logFilter.Written filter more) :
      Asks (front ++ more) { wish with logFilter := some filter }
  | kind {front : List String} {config filter : Option String}
      (asks : Asks front ⟨config, filter, none, none⟩) (kind : FieldKind) :
      Asks (front ++ [kind.name]) ⟨config, filter, some kind, none⟩
  | value {front : List String} {config filter : Option String} {kind : FieldKind}
      {value : String} (asks : Asks front ⟨config, filter, some kind, none⟩)
      (plain : NoOption value) : Asks (front ++ [value]) ⟨config, filter, some kind, some value⟩

/-- The command line asks for the check. Behind the end of options a value may look like an
option. -/
inductive AsksFor : List String → Invocation → Prop
  | plain {front : List String} {config filter : Option String} {kind : FieldKind}
      {value : String} (asks : Asks front ⟨config, filter, some kind, some value⟩) :
      AsksFor front ⟨config, filter, kind, value⟩
  | valueBehind {front : List String} {config filter : Option String} {kind : FieldKind}
      (asks : Asks front ⟨config, filter, some kind, none⟩) (value : String) :
      AsksFor (front ++ ["--", value]) ⟨config, filter, kind, value⟩
  | bothBehind {front : List String} {config filter : Option String}
      (asks : Asks front ⟨config, filter, none, none⟩) (kind : FieldKind) (value : String) :
      AsksFor (front ++ ["--", kind.name, value]) ⟨config, filter, kind, value⟩

/-! ## Forms of arguments -/

private theorem noOption_name (kind : FieldKind) : NoOption kind.name :=
  .inl (by cases kind <;> decide)

namespace Argument

private theorem ofText_of_noOption {text : String} (plain : NoOption text) :
    ofText text.toList = .plain := by
  obtain noDash | rfl := plain
  · cases chars : text.toList with
    | nil => rfl
    | cons c rest =>
      have differs : c ≠ '-' := by
        rintro rfl
        exact noDash (by rw [chars, List.head?_cons])
      unfold ofText
      split
      all_goals simp_all
  · rfl

/-- The name of an option, as the reader knows it. -/
def optionName : ValueOption → String
  | .config => "config"
  | .logFilter => "log-filter"

private theorem toList_flag (option : ValueOption) :
    option.flag.toList = '-' :: '-' :: (optionName option).toList := by
  cases option <;> decide

/-- A name behind two dashes ends where the text ends, or at an equals sign. -/
private theorem ofText_long {name rest : List Char} (noMark : '=' ∉ name) (present : name ≠ [])
    (stops : ∀ c ∈ rest.head?, c = '=') :
    ofText ('-' :: '-' :: (name ++ rest)) =
      .long (String.ofList name) (rest.tail?.map String.ofList) := by
  have run : ∀ c ∈ name, decide (c ≠ '=') = true := by
    intro c found
    refine decide_eq_true ?_
    rintro rfl
    exact noMark found
  have split : (name ++ rest).span (· ≠ '=') = (name, rest) := by
    rw [List.span_eq_takeWhile_dropWhile, List.takeWhile_append_of_pos run,
      List.dropWhile_append_of_pos run]
    cases rest with
    | nil => simp
    | cons c rest =>
      obtain rfl := stops c rfl
      simp
  obtain ⟨c, more, rfl⟩ := List.exists_cons_of_ne_nil present
  rw [List.cons_append] at split ⊢
  rw [ofText, split]
  · cases rest <;> rfl
  · simp

private theorem noMark_optionName (option : ValueOption) : '=' ∉ (optionName option).toList := by
  cases option <;> decide

private theorem optionName_present (option : ValueOption) : (optionName option).toList ≠ [] := by
  cases option <;> decide

private theorem ofText_flag (option : ValueOption) :
    ofText option.flag.toList = .long (optionName option) none := by
  have stops : ∀ c ∈ ([] : List Char).head?, c = '=' := nofun
  have read := ofText_long (noMark_optionName option) (optionName_present option) stops
  rw [List.append_nil, String.ofList_toList] at read
  rw [toList_flag, read]
  rfl

private theorem ofText_joined (option : ValueOption) (value : String) :
    ofText (option.flag ++ "=" ++ value).toList = .long (optionName option) (some value) := by
  have stops : ∀ c ∈ ('=' :: value.toList).head?, c = '=' := by simp
  have read := ofText_long (noMark_optionName option) (optionName_present option) stops
  have text : (option.flag ++ "=" ++ value).toList =
      '-' :: '-' :: ((optionName option).toList ++ '=' :: value.toList) := by
    rw [String.toList_append, String.toList_append, toList_flag]
    simp
  rw [text, read, String.ofList_toList, List.tail?_cons, Option.map_some, String.ofList_toList]

end Argument

/-! ## Steps of the reader -/

namespace Draft

private theorem foldlM_cons_of_ok {draft next : Draft} {text : String} {more : List String}
    (taken : draft.step text = .ok next) :
    (text :: more).foldlM step draft = more.foldlM step next := by
  rw [List.foldlM_cons, taken]
  rfl

private theorem foldlM_append_of_ok {draft next : Draft} {front more : List String}
    (taken : front.foldlM step draft = .ok next) :
    (front ++ more).foldlM step draft = more.foldlM step next := by
  rw [List.foldlM_append, taken]
  rfl

/-- The draft with its places moved on. -/
def moved (draft : Draft) (positionals : Nat) (optionsEnded : Bool) : Draft :=
  { draft with positionals, optionsEnded }

/-- What is held back settles the same wherever the reader stands. -/
private theorem settle_moved (draft : Draft) (positionals : Nat) (optionsEnded : Bool) :
    (draft.moved positionals optionsEnded).settle =
      draft.settle.map (·.moved positionals optionsEnded) := by
  obtain ⟨config, filter, kind, value, count, ended, pending⟩ := draft
  cases pending with
  | none => rfl
  | option option given =>
    cases given with
    | none => rfl
    | some text =>
      -- An option that is set already is refused in either place.
      cases option with
      | config =>
        cases config with
        | none => cases empty : text.isEmpty <;> simp [settle, moved, setOption, empty, Except.map]
        | some path => rfl
      | logFilter => cases filter <;> rfl
  | field text =>
    cases empty : text.isEmpty with
    | false =>
      cases known : FieldKind.ofName? text <;>
        simp [settle, moved, setField, empty, known, Except.map]
    | true => simp [settle, moved, setField, empty, Except.map]
  | value text => rfl

theorem setField_name (draft : Draft) (kind : FieldKind) :
    draft.setField kind.name = .ok { draft with kind := some kind } := by
  have present : ¬ kind.name.isEmpty = true := by cases kind <;> decide
  rw [setField, if_neg present, FieldKind.ofName?_name]

/-- An argument that is no option completes an option that waits for its value. -/
theorem step_of_waiting {draft : Draft} {option : ValueOption} {value : String}
    (options : draft.optionsEnded = false) (waiting : draft.pending = .option option none)
    (plain : NoOption value) :
    draft.step value = .ok { draft with pending := .option option (some value) } := by
  rw [step, options, if_neg Bool.false_ne_true, Argument.ofText_of_noOption plain]
  dsimp only
  rw [waiting]

/-- The draft of a wish, with nothing held back. -/
def ofWish (wish : Wish) (optionsEnded : Bool) : Draft :=
  ⟨wish.config, wish.logFilter, wish.kind, wish.value,
    wish.kind.toList.length + wish.value.toList.length, optionsEnded, .none⟩

/-- Once it settles, the draft is the one of the wish. -/
def Holds (draft : Draft) (wish : Wish) (optionsEnded : Bool) : Prop :=
  draft.settle = .ok (ofWish wish optionsEnded)

namespace Holds

variable {draft : Draft} {wish : Wish} {ended : Bool} (holds : draft.Holds wish ended)

include holds

/-- Settling moves nothing on. -/
theorem places : draft.positionals = wish.kind.toList.length + wish.value.toList.length ∧
    draft.optionsEnded = ended := by
  have moved := settle_moved draft draft.positionals draft.optionsEnded
  have still : draft.moved draft.positionals draft.optionsEnded = draft := rfl
  rw [still, holds] at moved
  have same := Except.ok.inj moved
  exact ⟨(congrArg Draft.positionals same).symm, (congrArg Draft.optionsEnded same).symm⟩

theorem not_waiting (option : ValueOption) : draft.pending ≠ .option option none := by
  intro waiting
  rw [Holds, settle, waiting] at holds
  cases holds

theorem hold (pending : Pending) :
    draft.hold pending = .ok { ofWish wish ended with pending := pending } := by
  rw [Draft.hold, holds]
  rfl

/-- What is held back once the reader has moved on by one argument. -/
theorem hold_moved (count : Nat) (pending : Pending) :
    ({ draft with positionals := count } : Draft).hold pending =
      .ok { ofWish wish ended with positionals := count, pending := pending } := by
  obtain rfl := holds.places.2
  have moved := settle_moved draft count draft.optionsEnded
  rw [holds] at moved
  have here : ({ draft with positionals := count } : Draft).settle =
      .ok ((ofWish wish draft.optionsEnded).moved count draft.optionsEnded) := moved
  rw [Draft.hold, here]
  rfl

/-- The first argument that is no option is the kind, if it names one. -/
theorem positional_kind (noKind : wish.kind = none) (noValue : wish.value = none)
    (kind : FieldKind) : ∃ next, draft.positional kind.name = .ok next ∧
      next.Holds { wish with kind := some kind } ended := by
  have first : draft.positionals = 0 := by
    rw [holds.places.1, noKind, noValue]
    rfl
  rw [positional, first]
  refine ⟨_, holds.hold_moved 1 (.field kind.name), ?_⟩
  rw [Holds, settle]
  dsimp only
  rw [setField_name, ofWish, ofWish, noValue]
  rfl

/-- The second one is the value, whatever it is. -/
theorem positional_value {kind : FieldKind} (isKind : wish.kind = some kind)
    (noValue : wish.value = none) (value : String) : ∃ next, draft.positional value = .ok next ∧
      next.Holds { wish with value := some value } ended := by
  have second : draft.positionals = 1 := by
    rw [holds.places.1, isKind, noValue]
    rfl
  rw [positional, second]
  refine ⟨_, holds.hold_moved 2 (.value value), ?_⟩
  rw [Holds, settle, ofWish, ofWish, isKind]
  rfl

/-- The end of options settles nothing. -/
theorem step_endOfOptions (options : ended = false) : ∃ next, draft.step "--" = .ok next ∧
    next.Holds wish true := by
  subst options
  have moved := settle_moved draft draft.positionals true
  rw [holds] at moved
  refine ⟨draft.moved draft.positionals true, ?_, ?_⟩
  · rw [step, holds.places.2]
    rfl
  · rw [Holds, moved, holds.places.1]
    rfl

/-- An argument that is no option is positional. -/
theorem step_of_noOption {text : String} (plain : NoOption text) :
    draft.step text = (draft.positional text).mapError .usage := by
  rw [step]
  split
  next => rfl
  next =>
    rw [Argument.ofText_of_noOption plain]
    dsimp only
    split
    next option waiting => exact absurd waiting (holds.not_waiting option)
    next => rfl

theorem step_of_long (options : ended = false) {text : String} {option : ValueOption}
    {value : Option String}
    (form : Argument.ofText text.toList = .long (Argument.optionName option) value) :
    draft.step text = (draft.option option value).mapError .usage := by
  rw [step, holds.places.2, options, if_neg Bool.false_ne_true, form]
  cases option <;> rfl

/-- An option sets its value, in one argument or in two. -/
theorem foldlM_written (options : ended = false) {option : ValueOption} {value : String}
    {wish' : Wish} (sets : (ofWish wish false).setOption option value = .ok (ofWish wish' false))
    {more : List String} (written : option.Written value more) :
    ∃ next, more.foldlM step draft = .ok next ∧ next.Holds wish' false := by
  subst options
  cases written with
  | joined =>
    -- A value behind the equals sign settles at once.
    refine ⟨ofWish wish' false, foldlM_cons_of_ok ?_, rfl⟩
    rw [holds.step_of_long rfl (Argument.ofText_joined ..), Draft.option, holds.hold]
    change ((ofWish wish false).setOption option value).mapError _ = _
    rw [sets]
    rfl
  | apart plain =>
    -- Without the equals sign the option waits for the argument behind it.
    let waiting : Draft := { ofWish wish false with pending := .option option none }
    refine ⟨{ waiting with pending := .option option (some value) }, ?_, sets⟩
    have waits : draft.step option.flag = .ok waiting := by
      rw [holds.step_of_long rfl (Argument.ofText_flag option), Draft.option, holds.hold]
      rfl
    rw [foldlM_cons_of_ok waits, foldlM_cons_of_ok (step_of_waiting rfl rfl plain)]
    rfl

end Holds

/-- After any arguments the draft holds what they have asked for. -/
theorem exists_of_asks {arguments : List String} {wish : Wish} (asks : Asks arguments wish) :
    ∃ draft, arguments.foldlM step start = .ok draft ∧ draft.Holds wish false := by
  -- Arguments are added at the end, so the reader is followed from what it holds in front of them.
  induction asks with
  | nothing => exact ⟨start, rfl, rfl⟩
  | @config front more wish path asks once present written ih =>
    obtain ⟨draft, read, holds⟩ := ih
    rw [foldlM_append_of_ok read]
    refine holds.foldlM_written rfl ?_ written
    have some : ¬ path.isEmpty = true := by simpa using present
    simp [setOption, ofWish, once, some]
  | @logFilter front more wish filter asks once written ih =>
    obtain ⟨draft, read, holds⟩ := ih
    rw [foldlM_append_of_ok read]
    refine holds.foldlM_written rfl ?_ written
    simp [setOption, ofWish, once]
  | kind asks kind ih =>
    obtain ⟨draft, read, holds⟩ := ih
    obtain ⟨next, positional, holds'⟩ := holds.positional_kind rfl rfl kind
    rw [foldlM_append_of_ok read]
    refine ⟨next, foldlM_cons_of_ok ?_, holds'⟩
    rw [holds.step_of_noOption (noOption_name kind), positional]
    rfl
  | @value front config filter kind value asks plain ih =>
    obtain ⟨draft, read, holds⟩ := ih
    obtain ⟨next, positional, holds'⟩ := holds.positional_value rfl rfl value
    rw [foldlM_append_of_ok read]
    refine ⟨next, foldlM_cons_of_ok ?_, holds'⟩
    rw [holds.step_of_noOption plain, positional]
    rfl

/-- Behind the end of options every argument is positional. -/
theorem Holds.step_behind {draft : Draft} {wish : Wish} (holds : draft.Holds wish true)
    (text : String) : draft.step text = (draft.positional text).mapError .usage := by
  rw [step, if_pos holds.places.2]

theorem Holds.finish {draft : Draft} {config filter : Option String} {kind : FieldKind}
    {value : String} {ended : Bool}
    (holds : draft.Holds ⟨config, filter, some kind, some value⟩ ended) :
    draft.finish = .ok ⟨config, filter, kind, value⟩ := by
  rw [Draft.finish, holds]
  rfl

end Draft

/-- What the draft holds in the end is the check. -/
theorem Draft.Holds.ofArguments {arguments : List String} {draft : Draft}
    {config filter : Option String} {kind : FieldKind} {value : String} {ended : Bool}
    (holds : draft.Holds ⟨config, filter, some kind, some value⟩ ended)
    (read : arguments.foldlM Draft.step .start = .ok draft) :
    Invocation.ofArguments arguments = .ok ⟨config, filter, kind, value⟩ := by
  rw [Invocation.ofArguments, read]
  change draft.finish.mapError _ = _
  rw [holds.finish]
  rfl

/-- The reader takes a command line for the check it asks for. -/
theorem Invocation.ofArguments_of_asksFor {arguments : List String} {invocation : Invocation}
    (asks : AsksFor arguments invocation) : ofArguments arguments = .ok invocation := by
  cases asks with
  | plain asks =>
    obtain ⟨draft, read, holds⟩ := Draft.exists_of_asks asks
    exact holds.ofArguments read
  | valueBehind asks value =>
    obtain ⟨draft, read, holds⟩ := Draft.exists_of_asks asks
    obtain ⟨behind, ended, holds⟩ := holds.step_endOfOptions rfl
    obtain ⟨last, taken, holds'⟩ := holds.positional_value rfl rfl value
    refine holds'.ofArguments ?_
    rw [Draft.foldlM_append_of_ok read, Draft.foldlM_cons_of_ok ended, Draft.foldlM_cons_of_ok]
    · rfl
    · rw [holds.step_behind, taken]
      rfl
  | bothBehind asks kind value =>
    obtain ⟨draft, read, holds⟩ := Draft.exists_of_asks asks
    obtain ⟨behind, ended, holds⟩ := holds.step_endOfOptions rfl
    obtain ⟨next, first, holds'⟩ := holds.positional_kind rfl rfl kind
    obtain ⟨last, second, holds''⟩ := holds'.positional_value rfl rfl value
    refine holds''.ofArguments ?_
    rw [Draft.foldlM_append_of_ok read, Draft.foldlM_cons_of_ok ended, Draft.foldlM_cons_of_ok,
      Draft.foldlM_cons_of_ok]
    · rfl
    · rw [holds'.step_behind, second]
      rfl
    · rw [holds.step_behind, first]
      rfl

end TokenIntake.Cli
