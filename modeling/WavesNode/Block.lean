/-
Blocks and micro-blocks.

A block is identified by its signature. The bytes the signature covers come from
the block serializer, a field of `BlockSerializer`.

Two portfolios are computed from a block's transactions: all its fees
(`feesPortfolio`) and the part of them that the *next* block's miner receives
(`prevBlockFeePart`). They sum in different ways, the first by wrapping sums for
each asset, the second by saturating sums of single parts.
-/
import WavesNode.Settings

set_option autoImplicit false

namespace WavesNode

abbrev BlockId := ByteStr

structure BlockHeader where
  version : Byte
  timestamp : Long
  reference : ByteStr
  baseTarget : Long
  generationSignature : ByteStr
  generator : PublicKey
  featureVotes : List Short
  rewardVote : Long
  transactionsRoot : ByteStr
  deriving DecidableEq

structure Block where
  header : BlockHeader
  signature : ByteStr
  transactionData : List Transaction
  deriving DecidableEq

structure MicroBlock where
  version : Byte
  sender : PublicKey
  transactionData : List Transaction
  prevResBlockSig : BlockId
  totalResBlockSig : BlockId
  signature : ByteStr
  deriving DecidableEq

/-- The bytes that block and micro-block signatures cover, and the digest of a block's
transactions, which is empty below the protobuf version. -/
class BlockSerializer where
  bytesWithoutSignature : Block → ByteStr
  microBytesWithoutSignature : MicroBlock → ByteStr
  mkTransactionsRoot : (version : Byte) → List Transaction → ByteStr

/-- `Seq[Long].sum`, which wraps. -/
def longSum (l : List Long) : Long := l.foldl (· + ·) 0

namespace Transaction

/-- `TransactionExt.feeDiff`. -/
def feeDiff (tx : Transaction) : Portfolio := .build tx.assetFee.1 tx.assetFee.2

end Transaction

/-- `Signed.signatureValid` of the signed transactions among `txs` (payments). -/
def paymentSignaturesValid [Crypto] [PBTransactionSerializer] (txs : List Transaction) :
    Validation Unit :=
  txs.forM fun tx =>
    match tx with
    | .payment p =>
      .cond (Crypto.verify p.signature (TxSerializer.bodyBytes tx) p.sender)
        (.InvalidSignature p.sender)
    | _ => .ok ()

namespace Block

variable (b : Block)

def uniqueId : BlockId := b.signature

def sender : PublicKey := b.header.generator

/-- The fees of all transactions, summed for each asset. -/
def feesPortfolio : Portfolio :=
  let assetFees := b.transactionData.map Transaction.assetFee
  .combineAll <| (assetFees.map Prod.fst).dedup.map fun a =>
    .build a (longSum ((assetFees.filter fun f => f.1 = a).map Prod.snd))

/-- The part of each fee that the current block's miner does not get. -/
def prevBlockFeePart : Portfolio :=
  .combineAll <| b.transactionData.map fun tx =>
    tx.feeDiff.minus (tx.feeDiff.multiply CurrentBlockFeePart)

/-- `Signed.signaturesValid` of the block and of its signed transactions. -/
def signaturesValid [Crypto] [PBTransactionSerializer] [BlockSerializer] : Validation Unit := do
  .cond (!Crypto.isWeakPublicKey b.header.generator &&
      Crypto.verify b.signature (BlockSerializer.bytesWithoutSignature b) b.header.generator)
    (.InvalidSignature b.header.generator)
  paymentSignaturesValid b.transactionData

end Block

namespace MicroBlock

variable (m : MicroBlock)

def signaturesValid [Crypto] [PBTransactionSerializer] [BlockSerializer] : Validation Unit := do
  .cond (Crypto.verify m.signature (BlockSerializer.microBytesWithoutSignature m) m.sender)
    (.InvalidSignature m.sender)
  paymentSignaturesValid m.transactionData

end MicroBlock

end WavesNode
