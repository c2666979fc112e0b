import Veld.Consensus.RedeemSpv
import Veld.Token.Block

/-!
# What the token ledger reads of the redeem covenant
-/

namespace Veld.Node

open Wire hiding bind_eq_ok
open Program Btcveld

section
variable {A : RedeemArchive}

/-- What the token ledger reads of an open request. -/
def payoutContext (r : RedeemRequest) : Reserve.PayoutContext :=
  ⟨r.requestId, r.requestCommitment, r.amountSats, r.destSpk⟩

/-- The token ledger's view of headers and covenant. -/
def viewOf (headers : Btcspv.BtcHeaderChain) (c : Covenant A) : View where
  headers := some headers
  payoutLookup commitment := (c.findOpenByCommitment commitment).map payoutContext

end

end Veld.Node
