import AionPool.Runtime
import Mathlib.Data.Rat.Defs

/-!
# The configuration the payment code reads

The fields of `PoolConfig`, its payment processing section and the Aion extension of it.
-/

namespace AionPool.Configuration

/-- `RewardRecipient`. -/
structure RewardRecipient where
  address : String
  percentage : ℚ
  type : Option String

inductive PayoutScheme where
  | pplns
  | solo
  deriving DecidableEq

/-- `PPLNSPaymentScheme.Config`. -/
structure PplnsConfig where
  factor : ℚ

/-- `AionPoolPaymentExtraConfig`. -/
structure AionPoolPaymentExtraConfig where
  accountPassword : Option String
  keepTransactionFees : Bool
  minimumConfirmations : Int32
  nrgFee : ℚ
  minimumPeerCount : Int32
  sendTransactionsUsingPrivateKey : Bool
  enableMinerMinimumPayment : Bool

/-- `PoolPaymentProcessingConfig`, with its extension read. -/
structure PoolPaymentProcessingConfig where
  minimumPayment : ℚ
  payoutScheme : PayoutScheme
  payoutSchemeConfig : Option PplnsConfig
  extra : AionPoolPaymentExtraConfig

/-- `PoolConfig`, and the symbol of its coin template. -/
structure PoolConfig where
  id : String
  address : String
  symbol : String
  signatureSwapProtocolUpgradeBlock : Option Int64
  rewardRecipients : List RewardRecipient
  paymentProcessing : PoolPaymentProcessingConfig

/-- A pool with one reward recipient of one percent and three confirmations. -/
def samplePool : PoolConfig where
  id := "aion1"
  address := "0xa0pool"
  symbol := "AION"
  signatureSwapProtocolUpgradeBlock := some Int64.maxValue
  rewardRecipients := [⟨"0xa0fee", 1, none⟩]
  paymentProcessing :=
    { minimumPayment := 1
      payoutScheme := .pplns
      payoutSchemeConfig := some ⟨2⟩
      extra :=
        { accountPassword := some "password"
          keepTransactionFees := true
          minimumConfirmations := 3
          nrgFee := 1 / 2
          minimumPeerCount := 1
          sendTransactionsUsingPrivateKey := false
          enableMinerMinimumPayment := false } }

end AionPool.Configuration
