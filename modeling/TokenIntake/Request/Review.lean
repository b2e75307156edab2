import TokenIntake.Field.Address
import TokenIntake.Field.Amount
import TokenIntake.Field.Digest
import TokenIntake.Field.Text
import TokenIntake.Json.Printer
import TokenIntake.Request.Payload
import TokenIntake.Rpc.FieldReport

/-!
# Review of requests

All fields of a request are checked in the order of their declaration, and the review
goes on after a refused one. The fields of a signed payload come last, under the name
of the payload.
-/

namespace TokenIntake

/-- Metadata is measured as compact JSON. -/
def Metadata.check : Option Json → Verdict
  | none => .ok ()
  | some metadata => Metadata.checkSize "metadata" metadata.compactSize

/-- An address that may be left out or empty. -/
def Address.checkOptional : Option String → Verdict
  | none => .ok ()
  | some address => if address.isEmpty then .ok () else Address.check address

/-- A signature only has to be there. -/
def Signature.check (signature : String) : Verdict :=
  if signature.isEmpty then .error (.required "signature") else .ok ()

namespace FieldReport

/-- The report on a mint. Its tags and its metadata are each one field. -/
def ofMint (p : MintPayload) : FieldReport :=
  empty
    |>.check "title" (Title.check p.title)
    |>.check "fraction_count" (FractionCount.check "fraction_count" p.fractionCount)
    |>.check "description" (Description.check p.description)
    |>.check "tags" (Tags.check p.tags)
    |>.check "metadata" (Metadata.check p.metadata)
    |>.check "feed_url" (FeedUrl.check p.feedUrl)
    |>.check "owner_address" (Address.checkOptional p.ownerAddress)

/-- The report on a buy offer. The seller is checked even if it was left out. -/
def ofBuyOffer (p : BuyOfferPayload) : FieldReport :=
  empty
    |>.check "offerer_address" (Address.check p.offererAddress)
    |>.check "seller_address" (Address.check p.sellerAddress)
    |>.check "mint_hash" (Hash.check p.mintHash)
    |>.check "quantity" (Quantity.check "quantity" p.quantity)
    |>.check "price" (Price.check "price" p.price)

def ofSellOffer (p : SellOfferPayload) : FieldReport :=
  empty
    |>.check "offerer_address" (Address.check p.offererAddress)
    |>.check "mint_hash" (Hash.check p.mintHash)
    |>.check "quantity" (Quantity.check "quantity" p.quantity)
    |>.check "price" (Price.check "price" p.price)

def ofDeleteOffer (p : DeleteOfferPayload) : FieldReport :=
  empty
    |>.check "offer_hash" (Hash.check p.offerHash)

def ofInvoice (p : InvoicePayload) : FieldReport :=
  empty
    |>.check "payment_address" (Address.check p.paymentAddress)
    |>.check "buy_offer_offerer_address" (Address.check p.buyOfferOffererAddress)
    |>.check "buy_offer_hash" (Hash.check p.buyOfferHash)
    |>.check "buy_offer_mint_hash" (Hash.check p.buyOfferMintHash)
    |>.check "buy_offer_quantity" (Quantity.check "buy_offer_quantity" p.buyOfferQuantity)
    |>.check "buy_offer_price" (Price.check "buy_offer_price" p.buyOfferPrice)
    |>.check "sell_offer_address" (Address.check p.sellOfferAddress)

end FieldReport

namespace RequestKind

/-- The outcome of all checks of a request. Those of a signed payload come behind the others. -/
def review : (kind : RequestKind) → kind.Request → Logged (Except (List FieldError) Unit)
  | mint, p => (FieldReport.ofMint p).finish
  | buyOffer, p => (FieldReport.ofBuyOffer p).finish
  | sellOffer, p => (FieldReport.ofSellOffer p).finish
  | deleteOffer, p => (FieldReport.ofDeleteOffer p).finish
  | invoice, p => (FieldReport.ofInvoice p).finish
  | signed kind, p =>
    (FieldReport.empty
      |>.check "public_key" (PublicKey.check p.publicKey)
      |>.check "signature" (Signature.check p.signature)
      |>.nested "payload" (kind.review p.payload)).finish

end RequestKind

end TokenIntake
