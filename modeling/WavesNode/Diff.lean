/-
State changes: what a transaction, a block or a micro-block does to the ledger.

A `Diff` is a record of finite maps, and diffs form a monoid: balances and leases
combine by the saturating sum, order fills and asset volumes by addition, asset
reissuability by conjunction, and everything else by overlay, the newer entry
winning. `Diff.combine` is that monoid's operation, field by field as the source
has it.
-/
import WavesNode.Portfolio

set_option autoImplicit false

namespace WavesNode

/-! ## 1. The components of a diff -/

structure VolumeAndFee where
  volume : Long
  fee : Long
  deriving DecidableEq

namespace VolumeAndFee

def empty : VolumeAndFee := ⟨0, 0⟩

def combine (x y : VolumeAndFee) : VolumeAndFee := ⟨x.volume + y.volume, x.fee + y.fee⟩

theorem combine_assoc (x y z : VolumeAndFee) :
    (x.combine y).combine z = x.combine (y.combine z) := by
  simp [combine, Int64.add_assoc]

theorem combine_comm (x y : VolumeAndFee) : x.combine y = y.combine x := by
  simp [combine, Int64.add_comm]

@[simp] theorem empty_combine (x : VolumeAndFee) : empty.combine x = x := by
  simp [combine, empty]

end VolumeAndFee

structure AssetInfo where
  isReissuable : Bool
  volume : ℤ
  deriving DecidableEq

namespace AssetInfo

def combine (x y : AssetInfo) : AssetInfo :=
  ⟨x.isReissuable && y.isReissuable, x.volume + y.volume⟩

theorem combine_assoc (x y z : AssetInfo) :
    (x.combine y).combine z = x.combine (y.combine z) := by
  simp [combine, Bool.and_assoc, add_assoc]

/-- No information is information that changes nothing. -/
theorem getD_combineOption (x y : Option AssetInfo) :
    (FiniteMap.combineOption combine x y).getD ⟨true, 0⟩ =
      (x.getD ⟨true, 0⟩).combine (y.getD ⟨true, 0⟩) := by
  cases x <;> cases y <;> simp [combine]

end AssetInfo

structure AssetDescription where
  issuer : PublicKey
  name : ByteStr
  description : ByteStr
  decimals : Byte
  reissuable : Bool
  totalVolume : ℤ
  script : Option Script
  sponsorship : Long
  deriving DecidableEq

structure AccountDataInfo where
  data : FiniteMap String DataEntry

namespace AccountDataInfo

def empty : AccountDataInfo := ⟨∅⟩

def combine (x y : AccountDataInfo) : AccountDataInfo := ⟨x.data ++ y.data⟩

theorem combine_assoc (x y z : AccountDataInfo) :
    (x.combine y).combine z = x.combine (y.combine z) := by
  simp [combine, FiniteMap.append_assoc]

@[simp] theorem combine_empty (x : AccountDataInfo) : x.combine empty = x := by
  simp [combine, empty]

end AccountDataInfo

/-- `Sponsorship`: a minimal fee, or no information. -/
inductive Sponsorship where
  | SponsorshipValue (minFee : Long)
  | SponsorshipNoInfo
  deriving DecidableEq

namespace Sponsorship

def combine (x y : Sponsorship) : Sponsorship :=
  match y with
  | SponsorshipNoInfo => x
  | SponsorshipValue m => SponsorshipValue m

theorem combine_assoc (x y z : Sponsorship) :
    (x.combine y).combine z = x.combine (y.combine z) := by
  cases y <;> cases z <;> rfl

end Sponsorship

/-- `InvokeScriptResult.Payment`. -/
structure InvokePayment where
  address : Address
  asset : Asset
  amount : Long
  deriving DecidableEq

structure InvokeScriptResult where
  data : List DataEntry
  /-- Without an order: the source lists a map. -/
  transfers : Multiset InvokePayment
  reissues : List Reissue
  burns : List Burn
  deriving DecidableEq

namespace InvokeScriptResult

def empty : InvokeScriptResult := ⟨[], 0, [], []⟩

/-- The monoid's `combine` keeps data and transfers only. -/
def combine (x y : InvokeScriptResult) : InvokeScriptResult :=
  ⟨x.data ++ y.data, x.transfers + y.transfers, [], []⟩

end InvokeScriptResult

/-! ## 2. The diff -/

@[ext]
structure Diff where
  transactions : FiniteMap ByteStr (Transaction × Finset Address)
  portfolios : Portfolios
  issuedAssets : FiniteMap IssuedAsset AssetInfo
  aliases : FiniteMap Alias Address
  orderFills : FiniteMap ByteStr VolumeAndFee
  leaseState : FiniteMap ByteStr Bool
  scripts : FiniteMap Address (Option (Script × Long))
  assetScripts : FiniteMap IssuedAsset (Option (Script × Long))
  accountData : FiniteMap Address AccountDataInfo
  sponsorship : FiniteMap IssuedAsset Sponsorship
  scriptsRun : ℕ
  scriptsComplexity : Long
  scriptResults : FiniteMap ByteStr InvokeScriptResult

namespace Diff

def empty : Diff where
  transactions := ∅
  portfolios := ∅
  issuedAssets := ∅
  aliases := ∅
  orderFills := ∅
  leaseState := ∅
  scripts := ∅
  assetScripts := ∅
  accountData := ∅
  sponsorship := ∅
  scriptsRun := 0
  scriptsComplexity := 0
  scriptResults := ∅

/-- The monoid's `combine`. -/
def combine (older newer : Diff) : Diff where
  transactions := older.transactions ++ newer.transactions
  portfolios := older.portfolios.combine newer.portfolios
  issuedAssets := .combineWith AssetInfo.combine older.issuedAssets newer.issuedAssets
  aliases := older.aliases ++ newer.aliases
  orderFills := .combineWith VolumeAndFee.combine older.orderFills newer.orderFills
  leaseState := older.leaseState ++ newer.leaseState
  scripts := older.scripts ++ newer.scripts
  assetScripts := older.assetScripts ++ newer.assetScripts
  accountData := .combineWith AccountDataInfo.combine older.accountData newer.accountData
  sponsorship := .combineWith Sponsorship.combine older.sponsorship newer.sponsorship
  scriptsRun := older.scriptsRun + newer.scriptsRun
  scriptsComplexity := older.scriptsComplexity + newer.scriptsComplexity
  scriptResults := .combineWith InvokeScriptResult.combine older.scriptResults newer.scriptResults

/-- `Diff(tx, …)`: the changes of one transaction, which is recorded with every
address that has a portfolio or a data change in these very arguments. -/
def ofTx [Crypto] [PBTransactionSerializer] (tx : Transaction) (changes : Diff) : Diff :=
  { changes with
    transactions := .single tx.id (tx, changes.portfolios.dom ∪ changes.accountData.dom) }

@[simp] theorem combine_empty (d : Diff) : d.combine empty = d := by
  ext : 1 <;> simp [combine, empty]

@[simp] theorem empty_combine (d : Diff) : empty.combine d = d := by
  ext : 1 <;> simp [combine, empty]

end Diff

end WavesNode
