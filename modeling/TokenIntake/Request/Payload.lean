import TokenIntake.Schema.Basic

/-!
# Requests

The payloads of the token service, the shapes in which they are written, and the
signed request that wraps a payload, be it one of the five or signed itself.
-/

namespace TokenIntake

/-- Mints a new token. -/
structure MintPayload where
  title : String
  fractionCount : Int64
  description : String
  tags : List String
  metadata : Option Json
  feedUrl : String
  ownerAddress : Option String

namespace MintPayload

/-- The fields of a mint, in the order of their declaration. -/
def fields : Fields :=
  .cons "title" .text true <|
  .cons "fraction_count" .integer true <|
  .cons "description" .text true <|
  .cons "tags" (.list .text) false <|
  .cons "metadata" (.option .json) false <|
  .cons "feed_url" .text false <|
  .cons "owner_address" (.option .text) false .nil

def shape : Shape := .record "CreateMintPayload" fields

def ofRow : fields.Row → MintPayload
  | (title, fractionCount, description, tags, metadata, feedUrl, ownerAddress, ()) =>
    { title, fractionCount, description, tags, metadata, feedUrl, ownerAddress }

def toRow (p : MintPayload) : fields.Row :=
  (p.title, p.fractionCount, p.description, p.tags, p.metadata, p.feedUrl, p.ownerAddress, ())

end MintPayload

/-- Offers to buy fractions of a mint. -/
structure BuyOfferPayload where
  offererAddress : String
  sellerAddress : String
  mintHash : String
  quantity : Int64
  price : Int64

namespace BuyOfferPayload

def fields : Fields :=
  .cons "offerer_address" .text true <|
  .cons "seller_address" .text false <|
  .cons "mint_hash" .text true <|
  .cons "quantity" .integer true <|
  .cons "price" .integer true .nil

def shape : Shape := .record "CreateBuyOfferPayload" fields

def ofRow : fields.Row → BuyOfferPayload
  | (offererAddress, sellerAddress, mintHash, quantity, price, ()) =>
    { offererAddress, sellerAddress, mintHash, quantity, price }

def toRow (p : BuyOfferPayload) : fields.Row :=
  (p.offererAddress, p.sellerAddress, p.mintHash, p.quantity, p.price, ())

end BuyOfferPayload

/-- Offers to sell fractions of a mint. -/
structure SellOfferPayload where
  offererAddress : String
  mintHash : String
  quantity : Int64
  price : Int64

namespace SellOfferPayload

def fields : Fields :=
  .cons "offerer_address" .text true <|
  .cons "mint_hash" .text true <|
  .cons "quantity" .integer true <|
  .cons "price" .integer true .nil

def shape : Shape := .record "CreateSellOfferPayload" fields

def ofRow : fields.Row → SellOfferPayload
  | (offererAddress, mintHash, quantity, price, ()) => { offererAddress, mintHash, quantity, price }

def toRow (p : SellOfferPayload) : fields.Row :=
  (p.offererAddress, p.mintHash, p.quantity, p.price, ())

end SellOfferPayload

/-- Withdraws an offer. -/
structure DeleteOfferPayload where
  offerHash : String

namespace DeleteOfferPayload

def fields : Fields := .cons "offer_hash" .text false .nil

def shape : Shape := .record "DeleteOfferPayload" fields

def ofRow : fields.Row → DeleteOfferPayload
  | (offerHash, ()) => { offerHash }

def toRow (p : DeleteOfferPayload) : fields.Row := (p.offerHash, ())

end DeleteOfferPayload

/-- Settles a buy offer. -/
structure InvoicePayload where
  paymentAddress : String
  buyOfferOffererAddress : String
  buyOfferHash : String
  buyOfferMintHash : String
  buyOfferQuantity : Int64
  buyOfferPrice : Int64
  sellOfferAddress : String

namespace InvoicePayload

def fields : Fields :=
  .cons "payment_address" .text true <|
  .cons "buy_offer_offerer_address" .text true <|
  .cons "buy_offer_hash" .text true <|
  .cons "buy_offer_mint_hash" .text true <|
  .cons "buy_offer_quantity" .integer true <|
  .cons "buy_offer_price" .integer true <|
  .cons "sell_offer_address" .text true .nil

def shape : Shape := .record "CreateInvoicePayload" fields

def ofRow : fields.Row → InvoicePayload
  | (paymentAddress, buyOfferOffererAddress, buyOfferHash, buyOfferMintHash, buyOfferQuantity,
      buyOfferPrice, sellOfferAddress, ()) =>
    { paymentAddress, buyOfferOffererAddress, buyOfferHash, buyOfferMintHash, buyOfferQuantity,
      buyOfferPrice, sellOfferAddress }

def toRow (p : InvoicePayload) : fields.Row :=
  (p.paymentAddress, p.buyOfferOffererAddress, p.buyOfferHash, p.buyOfferMintHash,
    p.buyOfferQuantity, p.buyOfferPrice, p.sellOfferAddress, ())

end InvoicePayload

/-- A payload with the key and the signature of its sender. Whether the signature is
right is not looked at. -/
structure Signed (Payload : Type) where
  publicKey : String
  signature : String
  payload : Payload

inductive RequestKind where
  | mint
  | buyOffer
  | sellOffer
  | deleteOffer
  | invoice
  | signed (payload : RequestKind)
  deriving DecidableEq, Repr

namespace RequestKind

@[reducible] def Request : RequestKind → Type
  | mint => MintPayload
  | buyOffer => BuyOfferPayload
  | sellOffer => SellOfferPayload
  | deleteOffer => DeleteOfferPayload
  | invoice => InvoicePayload
  | signed payload => Signed payload.Request

/-- The shape in which requests of a kind are written. -/
@[reducible] def shape : RequestKind → Shape
  | mint => MintPayload.shape
  | buyOffer => BuyOfferPayload.shape
  | sellOffer => SellOfferPayload.shape
  | deleteOffer => DeleteOfferPayload.shape
  | invoice => InvoicePayload.shape
  | signed payload =>
    .record "SignedRequest" <|
      .cons "public_key" .text true <|
      .cons "signature" .text true <|
      .cons "payload" payload.shape true .nil

def ofValue : (kind : RequestKind) → kind.shape.Value → kind.Request
  | mint, row => MintPayload.ofRow row
  | buyOffer, row => BuyOfferPayload.ofRow row
  | sellOffer, row => SellOfferPayload.ofRow row
  | deleteOffer, row => DeleteOfferPayload.ofRow row
  | invoice, row => InvoicePayload.ofRow row
  | signed kind, (publicKey, signature, payload, ()) =>
    { publicKey, signature, payload := kind.ofValue payload }

def toValue : (kind : RequestKind) → kind.Request → kind.shape.Value
  | mint, p => MintPayload.toRow p
  | buyOffer, p => BuyOfferPayload.toRow p
  | sellOffer, p => SellOfferPayload.toRow p
  | deleteOffer, p => DeleteOfferPayload.toRow p
  | invoice, p => InvoicePayload.toRow p
  | signed kind, p => (p.publicKey, p.signature, kind.toValue p.payload, ())

@[simp] theorem ofValue_toValue (kind : RequestKind) (request : kind.Request) :
    kind.ofValue (kind.toValue request) = request := by
  induction kind with
  | signed kind ih => simp [ofValue, toValue, ih]
  | _ => rfl

@[simp] theorem toValue_ofValue (kind : RequestKind) (value : kind.shape.Value) :
    kind.toValue (kind.ofValue value) = value := by
  induction kind with
  | signed kind ih => simp [ofValue, toValue, ih]
  | _ => rfl

end RequestKind

end TokenIntake
