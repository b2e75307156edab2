import TokenIntake.Field.Address
import TokenIntake.Field.Digest
import TokenIntake.Query.Pagination
import TokenIntake.Rpc.Error

/-!
# Filters of listings

Every raw value is cleaned first. A path segment has to be a hash; a filter is only
looked at if something is left of it, and an empty one is no filter.
-/

namespace TokenIntake

abbrev QueryParams : Type := List (String × String)

namespace Filter

/-- A refused value: the error names the field, and so does the event. -/
def rejected {α : Type} (field : String) (rejection : Rejection) : Logged (Except RpcError α) :=
  .report (.queryRejected field rejection.message)
    (.error (.invalidFields [⟨field, rejection.message⟩]))

def hashSegment (raw : String) : Logged (Except RpcError String) :=
  let hash := QueryValue.sanitize raw
  match Hash.check hash with
  | .ok () => .silent (.ok hash)
  | .error rejection => rejected "hash" rejection

/-- A filter that a check accepts, if anything is left of the raw value. -/
def optional (field : String) (raw : Option String) (check : String → Verdict) :
    Logged (Except RpcError (Option String)) :=
  let value := (raw.map QueryValue.sanitize).getD ""
  if value.isEmpty then .silent (.ok none)
  else
    match check value with
    | .ok () => .silent (.ok (some value))
    | .error rejection => rejected field rejection

/-- A flag is set by nothing but `true`. -/
def flag (raw : Option String) : Bool :=
  raw.map QueryValue.sanitize == some "true"

def get? (params : QueryParams) (name : String) : Option String :=
  List.lookup name params

def pagination (params : QueryParams) : Pagination :=
  .ofQuery (get? params "limit") (get? params "page")

end Filter

/-- Goes on from a filter unless it was refused. -/
def Logged.andThenOk {α β : Type} (logged : Logged (Except RpcError α))
    (next : α → Logged (Except RpcError β)) : Logged (Except RpcError β) :=
  logged.andThen fun
    | .ok value => next value
    | .error error => .silent (.error error)

structure MintQuery where
  pagination : Pagination
  publicKey : Option String
  address : Option String
  includeUnconfirmed : Bool
  deriving DecidableEq, Repr

/-- The filters of a listing of mints, the public key looked at before the address. -/
def MintQuery.ofParams (params : QueryParams) : Logged (Except RpcError MintQuery) :=
  (Filter.optional "public_key" (Filter.get? params "public_key") PublicKey.check).andThenOk
    fun publicKey =>
  (Filter.optional "address" (Filter.get? params "address") Address.check).andThenOk
    fun address =>
  .silent (.ok {
    pagination := Filter.pagination params
    publicKey
    address
    includeUnconfirmed := Filter.flag (Filter.get? params "include_unconfirmed") })

structure InvoiceQuery where
  pagination : Pagination
  mintHash : Option String
  offererAddress : Option String
  deriving DecidableEq, Repr

/-- The filters of a listing of invoices, the hash looked at before the address. -/
def InvoiceQuery.ofParams (params : QueryParams) : Logged (Except RpcError InvoiceQuery) :=
  (Filter.optional "mint_hash" (Filter.get? params "mint_hash") Hash.check).andThenOk
    fun mintHash =>
  (Filter.optional "offerer_address" (Filter.get? params "offerer_address")
    Address.check).andThenOk fun offererAddress =>
  .silent (.ok { pagination := Filter.pagination params, mintHash, offererAddress })

end TokenIntake
