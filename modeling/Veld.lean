import Veld.Amm.Positions
import Veld.Amm.SeedSearch
import Veld.Amm.Solvency
import Veld.Amm.WideProducts
import Veld.Consensus.ArchiveMap
import Veld.Consensus.CertRuns
import Veld.Consensus.CovenantLocks
import Veld.Consensus.FinalityForks
import Veld.Consensus.FinalitySafety
import Veld.Consensus.GovernanceLife
import Veld.Consensus.NullifierWitness
import Veld.Consensus.ValidatorTerms
import Veld.Core.Asert
import Veld.Core.HeaderOrder
import Veld.Core.MerkleRoot
import Veld.Core.Multisig
import Veld.Core.PoolIndexRuns
import Veld.Core.ReorgTrace
import Veld.Core.TxCodec
import Veld.Node.MarkerComposition
import Veld.Node.PayoutRelay
import Veld.Pool.Credit
import Veld.Pool.FloorTotal
import Veld.Pool.JournalCrash
import Veld.Token.MarkerLoop
import Veld.Token.OpText
import Veld.Token.Refusal
import Veld.Token.WorkWindow
