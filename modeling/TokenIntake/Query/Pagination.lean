import TokenIntake.Number.Word
import TokenIntake.Query.Sanitize
import TokenIntake.Schema.Basic
import TokenIntake.Text.Numeral

/-!
# Pages of a listing

A page has a number and a size. Both come as raw query values, and one that is no
number in range is silently replaced by its default.
-/

namespace TokenIntake

/-- A page of a listing. -/
structure Pagination where
  limit : UInt64
  page : UInt64
  deriving DecidableEq, Repr

namespace Pagination

/-- The size of a page unless another is asked for, and the largest. -/
def maxLimit : Nat := 100

/-- The largest number of a page. -/
def maxPage : Nat := 1000

/-- A cleaned value as a number from one to `max`. -/
def bounded? (raw : Option String) (max : Nat) : Option Nat := do
  let text := QueryValue.sanitize (← raw)
  match Numeral.natural (Word.limit - 1) text.toList with
  | .ok n => if 1 ≤ n ∧ n ≤ max then some n else none
  | .error _ => none

def ofQuery (limit page : Option String) : Pagination where
  limit := UInt64.ofNat ((bounded? limit maxLimit).getD maxLimit)
  page := UInt64.ofNat ((bounded? page maxPage).getD 0)

/-- The place of the first item of the page. -/
def start (p : Pagination) : UInt64 := p.page * p.limit

/-- The place behind the last item of the page. -/
def stop (p : Pagination) : UInt64 := p.start + p.limit

def fields : Fields := .cons "limit" .word true (.cons "page" .word true .nil)

def shape : Shape := .record "Pagination" fields

def ofRow : fields.Row → Pagination
  | (limit, page, ()) => ⟨limit, page⟩

def toRow (p : Pagination) : fields.Row := (p.limit, p.page, ())

end Pagination

end TokenIntake
