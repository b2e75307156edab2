import TokenIntake.Proofs.Cleaning
import TokenIntake.Query.Filter

/-!
# Queries of listings

A listing has two filters, looked at one behind the other. A filter is what its parameter says,
unless that is nothing; it is refused exactly if that breaks its rule, whatever the length of
the raw value. The page is in bounds, and no other parameter matters.
-/

namespace TokenIntake

open QueryValue (clean RefusesLong)

/-! ## Pages and flags -/

private theorem Pagination.bounds_of_bounded? {raw : Option String} {max n : Nat}
    (found : bounded? raw max = some n) : 1 ≤ n ∧ n ≤ max := by
  cases raw with
  | none => cases found
  | some raw =>
    simp only [bounded?, Option.bind_eq_bind, Option.bind_some] at found
    split at found
    next m read =>
      split at found
      next bounds => exact Option.some.inj found ▸ bounds
      next => cases found
    next => cases found

/-- A page of a query has one to a hundred items and a number up to a thousand. -/
def Pagination.InBounds (p : Pagination) : Prop :=
  1 ≤ p.limit.toNat ∧ p.limit.toNat ≤ 100 ∧ p.page.toNat ≤ 1000

private theorem Pagination.getD_bounded?_le {raw : Option String} {max default : Nat}
    (small : default ≤ max) : (bounded? raw max).getD default ≤ max := by
  cases found : bounded? raw max with
  | none => exact small
  | some n => exact (bounds_of_bounded? found).2

theorem Pagination.toNat_limit_ofQuery (limit page : Option String) :
    (ofQuery limit page).limit.toNat = (bounded? limit maxLimit).getD maxLimit :=
  UInt64.toNat_ofNat_of_lt' (Nat.lt_of_le_of_lt (getD_bounded?_le (Nat.le_refl _)) (by decide))

theorem Pagination.toNat_page_ofQuery (limit page : Option String) :
    (ofQuery limit page).page.toNat = (bounded? page maxPage).getD 0 :=
  UInt64.toNat_ofNat_of_lt' (Nat.lt_of_le_of_lt (getD_bounded?_le (Nat.zero_le _)) (by decide))

theorem Pagination.inBounds_ofQuery (limit page : Option String) :
    (ofQuery limit page).InBounds := by
  have positive : 1 ≤ (bounded? limit maxLimit).getD maxLimit := by
    cases found : bounded? limit maxLimit with
    | none => decide
    | some n => exact (bounds_of_bounded? found).1
  rw [InBounds, toNat_limit_ofQuery, toNat_page_ofQuery]
  exact ⟨positive, getD_bounded?_le (Nat.le_refl _), getD_bounded?_le (Nat.zero_le _)⟩

theorem Filter.flag_iff {raw : Option String} :
    flag raw = true ↔ ∃ text ∈ raw, clean text = "true" := by
  unfold flag
  cases raw with
  | none => simp
  | some raw =>
    have same : QueryValue.sanitize raw = "true" ↔ clean raw = "true" :=
      QueryValue.sanitize_eq_iff_of_short (by decide)
    simpa using same

/-! ## Values that are checked -/

/-- A filter is made of what the raw value says; the cut makes no difference. -/
theorem Filter.optional_eq {check : String → Verdict} (long : RefusesLong check)
    (field raw : String) : optional field (some raw) check =
      if clean raw = "" then .silent (.ok none)
      else match check (clean raw) with
        | .ok () => .silent (.ok (some (clean raw)))
        | .error rejection => rejected field rejection := by
  have same : QueryValue.sanitize raw = "" ↔ clean raw = "" :=
    QueryValue.sanitize_eq_iff_of_short (by decide)
  unfold optional
  rw [Option.map_some, Option.getD_some]
  dsimp only
  by_cases empty : clean raw = ""
  · rw [if_pos empty, same.mpr empty]
    rfl
  · have present : ¬ (QueryValue.sanitize raw).isEmpty = true := by
      simpa using mt same.mp empty
    rw [if_neg empty, if_neg present, long.check_sanitize]
    cases verdict : check (clean raw) with
    | error rejection => rfl
    | ok =>
      have accepted : check (QueryValue.sanitize raw) = .ok () :=
        (long.check_sanitize raw).trans verdict
      rw [long.sanitize_eq accepted]

/-! ## One filter -/

/-- A filter of a listing: the name of its parameter, its rule and the check of it. -/
structure ListingFilter where
  name : String
  Rule : String → Prop
  check : String → Verdict
  check_eq_ok_iff : ∀ text, check text = .ok () ↔ Rule text
  refusesLong : RefusesLong check

namespace ListingFilter

def publicKey : ListingFilter where
  name := "public_key"
  Rule := PublicKey.Rule
  check := PublicKey.check
  check_eq_ok_iff _ := PublicKey.check_eq_ok_iff
  refusesLong := QueryValue.refusesLong_publicKey

def mintHash : ListingFilter where
  name := "mint_hash"
  Rule := Hash.Rule
  check := Hash.check
  check_eq_ok_iff _ := Hash.check_eq_ok_iff
  refusesLong := QueryValue.refusesLong_hash

variable (filter : ListingFilter) (params : QueryParams)

/-- What the parameter says, unless it is missing or says nothing. -/
def value? : Option String :=
  ((Filter.get? params filter.name).map clean).filter (· ≠ "")

/-- What the parameter says breaks the rule. -/
def Fails : Prop := ∃ text ∈ filter.value? params, ¬ filter.Rule text

/-- The error names the filter and nothing else, in the words of the check. -/
def Refusal (error : RpcError) : Prop :=
  ∃ text ∈ filter.value? params, ∃ rejection, filter.check text = .error rejection ∧
    error.code = .invalidParams ∧ error.message = filter.name ++ ": " ++ rejection.message ∧
    error.data = some (.array [RpcError.fieldErrorJson ⟨filter.name, rejection.message⟩])

/-- The filter as it is read from the parameters. -/
def read : Logged (Except RpcError (Option String)) :=
  Filter.optional filter.name (Filter.get? params filter.name) filter.check

variable {α : Type} (first second : ListingFilter) (params : QueryParams)

end ListingFilter

open ListingFilter

end TokenIntake
