import SeqLN.Common
import SeqLN.Lib.Bytes
import SeqLN.Lib.ScriptNum
import SeqLN.Lib.Sha256
import SeqLN.Lib.Tapscript
import SeqLN.Sym.Scripts
import SeqLN.Sym.UpdateCovenant
import SeqLN.Sym.SettleCovenant
import SeqLN.Sym.Settlement
import SeqLN.Sym.SettlementAgreement
import SeqLN.Lib.StagedLog
import SeqLN.Channeld.HtlcState
import SeqLN.Channeld.FeeStates
import SeqLN.Channeld.Basic
import SeqLN.Channeld.AddHtlc
import SeqLN.Channeld.Steps
import SeqLN.Channeld.Ledger
import SeqLN.Channeld.Solvent
import SeqLN.Channeld.Conservation
import SeqLN.Channeld.Affordable
import SeqLN.Channeld.Settled
import SeqLN.Channeld.Restore
import SeqLN.Channeld.UpdateLog
import SeqLN.Channeld.Peers
import SeqLN.Channeld.PeerLogs
import SeqLN.Channeld.Agreement
import SeqLN.Channeld.SwapPromise
import SeqLN.Channeld.SwapAgreed
import SeqLN.Lib.SlidingWindow
import SeqLN.Lib.Checks
import SeqLN.Signer.Payments
import SeqLN.Signer.Channel
import SeqLN.Signer.Commitment
import SeqLN.Signer.Close
import SeqLN.Signer.Device
import SeqLN.Signer.SymStates
import SeqLN.Signer.SymLanes
import SeqLN.Signer.Requests
import SeqLN.Signer.Accepted
import SeqLN.Signer.Allowance
import SeqLN.Signer.PeerCommitments
import SeqLN.Signer.OwnCommitments
import SeqLN.Signer.Kickoff
import SeqLN.Lib.Wire
import SeqLN.Signer.StoreCodec
import SeqLN.Signer.Import
import SeqLN.Signer.CloseShares
import SeqLN.Lib.Matching
import SeqLN.Sym.Trees
import SeqLN.Signer.SymBuild
import SeqLN.Signer.SettlementParts
import SeqLN.Lib.FirstFit
import SeqLN.Onchaind.SymSettled
import SeqLN.Chain.Frontier
import SeqLN.Chain.Topology
import SeqLN.Plugins.Crossasset
import SeqLN.Plugins.CrossassetMargin
import SeqLN.Plugins.CrossassetForwards
import SeqLN.Plugins.CrossassetExact
import SeqLN.Plugins.CrossassetLossless
import SeqLN.Plugins.Holdinvoice
import SeqLN.Plugins.HoldinvoicePaid
import SeqLN.Lightningd.Credit
import SeqLN.Lightningd.HtlcSetAssets
import SeqLN.Tcov.Covenant
import SeqLN.Tcov.CreditChain
import SeqLN.Lib.Cursor
import SeqLN.Sym.Clock
import SeqLN.Speculad.StateWire
import SeqLN.Speculad.Record
import SeqLN.Channeld.Refused
import SeqLN.Channeld.FeeRuns
import SeqLN.Lightningd.BestChannel
import SeqLN.Channeld.DustExposure
import SeqLN.Tcov.Spendable
import SeqLN.Lib.Adjacent
import SeqLN.Signer.PlanRuns
import SeqLN.Signer.SwapRuns
import SeqLN.Lib.ByteOrder
import SeqLN.Lib.SelectionSort
import SeqLN.Bitcoin.Tx
import SeqLN.Closing.CloseTx
import SeqLN.Closing.CloseAgreement
import SeqLN.Bitcoin.Commitment
import SeqLN.Channeld.CommitTx
import SeqLN.Tcov.CommitTx
import SeqLN.Chain.Buried
import SeqLN.Channeld.Splice
import SeqLN.Lightningd.ForwardFee
import SeqLN.Lib.WideDivision
import SeqLN.Wallet.AssetFee
import SeqLN.Lib.Digits
import SeqLN.Lib.DecimalContext
import SeqLN.Plugins.CrossassetRate
import SeqLN.Lib.BitWalk
import SeqLN.Wallet.Shachain
