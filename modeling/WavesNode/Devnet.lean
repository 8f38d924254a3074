/-
A small network with known answers.

The digests, the signature check, the protobuf encoder, the script reader and the
interpreter are parameters of the development. On finitely many inputs their answers
are known, and `KnownAnswers` is a table of them: the platform that answers from the
table, and says no to everything it does not list, is one value of the parameters, on
which the node's functions compute. The three accounts here have real keys, and every
digest and signature in a table of this development is the real one.
-/
import WavesNode.Environment

set_option autoImplicit false

namespace WavesNode

namespace Devnet

/-- The `len` bytes of a number, most significant first. -/
def bytes (len value : ℕ) : ByteStr := BigEndian.write len value

def chainId : Byte := 84

/-! ## 1. Accounts -/

/-- A key with the two digests its address is made of. -/
structure Account where
  publicKey : PublicKey
  keyDigest : ByteStr
  checksumDigest : ByteStr

namespace Account

def withoutChecksum (a : Account) : ByteStr :=
  Address.AddressVersion :: chainId :: a.keyDigest.take Address.HashLength

def address (a : Account) : Address :=
  ⟨a.withoutChecksum ++ a.checksumDigest.take Address.ChecksumLength⟩

end Account

def alice : Account :=
  ⟨bytes 32 0x2e8b2883c27b391359d7d0c15d00815a6693290a38dd8eba341cc07ddaa8ed4d,
    bytes 32 0xea58e2539eb41410f8873ff020608b0c8325427f9caec2f1516c9f4928230f19,
    bytes 32 0xeaaacd73481d958daafa5dcd7b54fb7b9593af7e97fa489bd6f8414a1e1642a0⟩

def bob : Account :=
  ⟨bytes 32 0xc0b126b5aa134b84e64625256b8de8973787612b1f3839d2c60526d2114e886d,
    bytes 32 0xaa259a33e350952c45254e402badc9b74c47e88d9b3cae06299df8b6d073aee3,
    bytes 32 0x2cdd1ded78d61f979f4a913575a39f253a267bb40c911d3ef6c8848f5fccee54⟩

def miner : Account :=
  ⟨bytes 32 0x1885844ed84c86501cd2221627f1d16cd4c60530e5415e1bf6cab037b054f150,
    bytes 32 0x007500238a0b7bfde1a3b1e2429346ff1676b947f8fa0b0c605a6a15c7795c92,
    bytes 32 0x93297b20605df568baccdcab95f8c5c6306f15076bd703037eb57f6b57503c0a⟩

/-- The account of the empty seed, which forges every genesis block. -/
def founder : Account :=
  ⟨bytes 32 0x18656ba6d7862cb11d995afe20bf8761edee05ec28aa29bfbcf31ebd19dede71,
    bytes 32 0x01ec590cb8a9b83cc028a1e3c7fbdc5057166afce7c5c5fc1ff82949fd5b2cb0,
    bytes 32 0x6a16d5116860b292bbb96e269e326a7a9ca214acabffe22f669a9448eb808c6b⟩

def accounts : List Account := [alice, bob, miner, founder]

/-! ## 2. Tables -/

/-- A signed message. -/
structure SignedMessage where
  publicKey : PublicKey
  message : ByteStr
  signature : ByteStr
  deriving DecidableEq

/-- The answers a platform gives. -/
structure KnownAnswers where
  /-- Messages with their fast digests. -/
  digests : List (ByteStr × ByteStr) := []
  signatures : List SignedMessage := []
  /-- Blocks with the bytes their signatures cover. -/
  blocks : List (Block × ByteStr) := []
  /-- What every call of a contract returns. -/
  actions : List CallableAction := []

def lookup (table : List (ByteStr × ByteStr)) (x : ByteStr) : ByteStr :=
  ((table.find? fun entry => entry.1 = x).map Prod.snd).getD []

namespace KnownAnswers

variable (k : KnownAnswers)

@[reducible] def crypto : Crypto where
  chainId := chainId
  fastHash := lookup k.digests
  secureHash :=
    lookup (accounts.flatMap fun a =>
      [(a.publicKey, a.keyDigest), (a.withoutChecksum, a.checksumDigest)])
  verify signature message publicKey :=
    k.signatures.contains ⟨publicKey, message, signature⟩
  isWeakPublicKey _ := false

/-- No block of a protobuf version is used here. -/
@[reducible] def blockSerializer : BlockSerializer where
  bytesWithoutSignature block :=
    ((k.blocks.find? fun entry => entry.1 = block).map Prod.snd).getD []
  microBytesWithoutSignature _ := []
  mkTransactionsRoot _ _ := []

/-- Every script allows, every call returns the same actions, nothing is complex. -/
@[reducible] def ride : Ride where
  evaluate _ _ _ _ _ := .value .TRUE
  invoke _ _ _ _ := .ok k.actions
  estimate _ _ := .ok 1
  verifierComplexity _ _ := .ok 1
  functionComplexity _ _ _ := .ok 1
  limitFreeComplexity _ _ _ := .ok 1

end KnownAnswers

/-- No transaction of a protobuf version is used here. -/
@[reducible] def pbTransactionSerializer : PBTransactionSerializer := ⟨fun _ => []⟩

/-- The address of each account is the one its key gives. -/
theorem toAddress_of_mem (k : KnownAnswers) {a : Account} (ha : a ∈ accounts) :
    @PublicKey.toAddress k.crypto a.publicKey = a.address := by
  -- an address is made with the slow digest only, which no table changes
  have hall : ∀ a ∈ accounts,
      @PublicKey.toAddress (KnownAnswers.crypto {}) a.publicKey = a.address := by
    decide +kernel
  exact hall a ha

/-! ## 3. Settings -/

/-- Settings with the given features in force from the given heights; every legacy rule
ends at height zero. -/
def functionalitySettings (features : List (BlockchainFeature × ℕ)) : FunctionalitySettings where
  featureCheckBlocksPeriod := 1
  blocksForFeatureActivation := 1
  resetEffectiveBalancesAtHeight := 0
  blockVersion3AfterHeight := 0
  preActivatedFeatures := .ofList (features.map fun f => (f.1.id, f.2))
  doubleFeaturesPeriodsAfterHeight := 1000000
  maxTransactionTimeBackOffset := 7200000
  maxTransactionTimeForwardOffset := 5400000
  lastTimeBasedForkParameter := 0
  leaseExpiration := 1000000
  featureCheckBlocksPeriod_pos := by decide
  blocksForFeatureActivation_pos := by decide
  blocksForFeatureActivation_le := by decide

/-- The periods of the settings that later sections use. -/
theorem one_pos : 0 < 1 := by decide

theorem one_le : 1 ≤ 1 := by decide

theorem three_pos : 0 < 3 := by decide

theorem one_le_three : 1 ≤ 3 := by decide

theorem tenThousand_pos : 0 < 10000 := by decide

theorem one_le_tenThousand : 1 ≤ 10000 := by decide

def rewardsSettings : RewardsSettings where
  term := 100000
  initial := 600000000
  minIncrement := 50000000
  votingInterval := 10000
  initial_nonneg := by decide
  minIncrement_pos := by decide
  term_pos := by decide
  votingInterval_pos := by decide
  votingInterval_le := by decide

def settings (features : List (BlockchainFeature × ℕ)) : BlockchainSettings where
  functionalitySettings := functionalitySettings features
  rewardsSettings := rewardsSettings
  initialBalance := 10000000000000000

/-! ## 4. The first blocks

The genesis block gives Alice and Bob half of all Waves each; an empty block follows. -/

def genesisTransaction (recipient : Account) (digest : ByteStr) : Transaction :=
  .genesis ⟨recipient.address, 5000000000000000, 1499999900000, digest ++ digest⟩

def genesisBlock : Block where
  header :=
    { version := 1
      timestamp := 1499999900000
      reference := List.replicate 64 (-1)
      baseTarget := 153722867
      generationSignature := List.replicate 32 0
      generator := founder.publicKey
      featureVotes := []
      rewardVote := -1
      transactionsRoot := [] }
  signature := bytes 64
    0x813668d47528909acf62aeeba30294f9418c2e97172d3ba7c6b151db7b59017729e5dcdad233de6207ec6c23997c1e53e839c715225de43d375043d5b398e688
  transactionData :=
    [genesisTransaction alice
        (bytes 32 0x646ffc8372561f8ff425964fba0218a5d2fa22cc127763c524a24b3a2c925f45),
      genesisTransaction bob
        (bytes 32 0x69d91f339fd2bbb0f6afecec439352c5a88ab3beae31fdc5a13a8b3993d1963e)]

def genesisBlockBytes : ByteStr :=
  bytes 248 0x010000015d3ef61160ffffffffffffffffffffffffffffffffffffffffffffffffffffffffffffffffffffffffffffffffffffffffffffffffffffffffffffffffffffffffffffffff000000280000000009299ff300000000000000000000000000000000000000000000000000000000000000000000005f020000002b010000015d3ef611600154ea58e2539eb41410f8873ff020608b0c8325427feaaacd730011c37937e080000000002b010000015d3ef611600154aa259a33e350952c45254e402badc9b74c47e88d2cdd1ded0011c37937e0800018656ba6d7862cb11d995afe20bf8761edee05ec28aa29bfbcf31ebd19dede71

def emptyBlock : Block where
  header :=
    { version := 3
      timestamp := 1499999960000
      reference := genesisBlock.signature
      baseTarget := 153722867
      generationSignature :=
        bytes 32 0x40328d507794ee8ca0f9169b6e221a1409677d18dc99c0d1674574ccf69aceb9
      generator := miner.publicKey
      featureVotes := []
      rewardVote := -1
      transactionsRoot := [] }
  signature := bytes 64
    0x3c2df1369e5522e9b19241239b7c85a4c415d184bb3616d3e07ba3ddf5ccd9ae9aae37317043bcc8e71788d5240e6cb5dce197fea65d2346acb8e7a464906686
  transactionData := []

def emptyBlockBytes : ByteStr :=
  bytes 161 0x030000015d3ef6fbc0813668d47528909acf62aeeba30294f9418c2e97172d3ba7c6b151db7b59017729e5dcdad233de6207ec6c23997c1e53e839c715225de43d375043d5b398e688000000280000000009299ff340328d507794ee8ca0f9169b6e221a1409677d18dc99c0d1674574ccf69aceb90000000400000000000000001885844ed84c86501cd2221627f1d16cd4c60530e5415e1bf6cab037b054f150

/-- The platform that knows the first blocks and their signatures. -/
def firstBlocks : KnownAnswers where
  signatures :=
    [⟨founder.publicKey, genesisBlockBytes, genesisBlock.signature⟩,
      ⟨miner.publicKey, emptyBlockBytes, emptyBlock.signature⟩]
  blocks := [(genesisBlock, genesisBlockBytes), (emptyBlock, emptyBlockBytes)]

/-- The platform that knows what both know. -/
def KnownAnswers.and (k l : KnownAnswers) : KnownAnswers where
  digests := k.digests ++ l.digests
  signatures := k.signatures ++ l.signatures
  blocks := k.blocks ++ l.blocks
  actions := k.actions ++ l.actions

/-! ## 5. A contract and its token

The second block may instead issue a token of Alice's and make her account a contract. -/

def token : IssueTransaction where
  version := 1
  sender := alice.publicKey
  name := [84, 111, 107, 101, 110]
  description := []
  quantity := 1000
  decimals := 0
  reissuable := true
  script := none
  fee := 100000000
  timestamp := 1499999960000
  proofs := ⟨[bytes 64
    0x7ba0dfb6ad7f3fdc5c10b054aa8902405c5da24883bd0aa233be8bef3bbc6cf563d2f520c9e71641f9279955c70d96dbef6dca491054f8bc5a8aa5dd35a4e386]⟩

def tokenBody : ByteStr :=
  bytes 68 0x032e8b2883c27b391359d7d0c15d00815a6693290a38dd8eba341cc07ddaa8ed4d0005546f6b656e000000000000000003e800010000000005f5e1000000015d3ef6fbc0

def tokenId : ByteStr :=
  bytes 32 0x63030a93e3174c4641e7a48c2e034da7459a3b15be1e5a86b44b998ac8c3891b

def contractScript : SetScriptTransaction where
  version := 1
  sender := alice.publicKey
  script := some ⟨.V4, .dApp false, false, [0, 2, 4]⟩
  fee := 1000000
  timestamp := 1499999960000
  proofs := ⟨[bytes 64
    0x94af320e3e0b21c217ce880ed3862e69782bcf4f635a285cfcd3da8ab6144b617ef703cd38b0035d206fbefc3c09fa4504fd90ec001991aeb2124acdf04c428c]⟩

def contractScriptBody : ByteStr :=
  bytes 57 0x0d01542e8b2883c27b391359d7d0c15d00815a6693290a38dd8eba341cc07ddaa8ed4d01000300020400000000000f42400000015d3ef6fbc0

/-- A call of the contract by Bob. -/
def contractCall : InvokeScriptTransaction where
  version := 1
  sender := bob.publicKey
  dAppAddressOrAlias := .address alice.address
  funcCallOpt := none
  payments := []
  fee := 500000
  feeAssetId := .Waves
  timestamp := 1500000000000
  proofs := ⟨[bytes 64
    0xed3192c2f706569876d9cf91f404c72e53b45c48c3b88a110da68b9c9676fb696340749f8bb5de397f21d7a35b09e1f3efc1878825f73a7eddd0e4b924249e87]⟩

def contractCallBody : ByteStr :=
  bytes 81 0x100154c0b126b5aa134b84e64625256b8de8973787612b1f3839d2c60526d2114e886d0154ea58e2539eb41410f8873ff020608b0c8325427feaaacd73000000000000000007a120000000015d3ef79800

def contractBlock : Block :=
  { emptyBlock with
    signature := bytes 64
      0x8369c03c7998c1e0c07955710fdb4b73bf0c2d614977397be1e7672600c5b50c987a2207805594a6dc6bd99ea03619953ae9eb85d646ab9704b0d645372a3c8f
    transactionData := [.issue token, .setScript contractScript] }

def contractBlockBytes : ByteStr :=
  bytes 429 0x030000015d3ef6fbc0813668d47528909acf62aeeba30294f9418c2e97172d3ba7c6b151db7b59017729e5dcdad233de6207ec6c23997c1e53e839c715225de43d375043d5b398e688000000280000000009299ff340328d507794ee8ca0f9169b6e221a1409677d18dc99c0d1674574ccf69aceb9000001100000000200000085037ba0dfb6ad7f3fdc5c10b054aa8902405c5da24883bd0aa233be8bef3bbc6cf563d2f520c9e71641f9279955c70d96dbef6dca491054f8bc5a8aa5dd35a4e386032e8b2883c27b391359d7d0c15d00815a6693290a38dd8eba341cc07ddaa8ed4d0005546f6b656e000000000000000003e800010000000005f5e1000000015d3ef6fbc00000007f000d01542e8b2883c27b391359d7d0c15d00815a6693290a38dd8eba341cc07ddaa8ed4d01000300020400000000000f42400000015d3ef6fbc0010001004094af320e3e0b21c217ce880ed3862e69782bcf4f635a285cfcd3da8ab6144b617ef703cd38b0035d206fbefc3c09fa4504fd90ec001991aeb2124acdf04c428c000000001885844ed84c86501cd2221627f1d16cd4c60530e5415e1bf6cab037b054f150

/-- The platform that knows the contract's block, and the actions of its calls. -/
def contractBlocks (actions : List CallableAction) : KnownAnswers :=
  firstBlocks.and
    { digests :=
        [(tokenBody, tokenId),
          (contractScriptBody,
            bytes 32 0xa234b7028eec35b5f174210d7cb39de4482f2597d4c5fb6ee25c2b448f4823c6),
          (contractCallBody,
            bytes 32 0xd4d70db45d18585990ee17b339620660865c80b9008ca56b0bb7dbb51434ccd4)]
      signatures :=
        [⟨alice.publicKey, tokenBody, token.proofs.proofs.headD []⟩,
          ⟨alice.publicKey, contractScriptBody, contractScript.proofs.proofs.headD []⟩,
          ⟨bob.publicKey, contractCallBody, contractCall.proofs.proofs.headD []⟩,
          ⟨miner.publicKey, contractBlockBytes, contractBlock.signature⟩]
      blocks := [(contractBlock, contractBlockBytes)]
      actions := actions }

/-- Contracts of the latest version are in force from the start. -/
def contractSettings : BlockchainSettings :=
  settings [(BlockchainFeatures.NG, 0), (BlockchainFeatures.SmartAccounts, 0),
    (BlockchainFeatures.DataTransaction, 0), (BlockchainFeatures.Ride4DApps, 0),
    (BlockchainFeatures.MultiPaymentInvokeScript, 0)]

end Devnet

end WavesNode
