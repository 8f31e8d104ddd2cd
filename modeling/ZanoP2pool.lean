import ZanoP2pool.BlockSubmitter
import ZanoP2pool.ConsensusAgreement
import ZanoP2pool.CryptoHash
import ZanoP2pool.DurableLog
import ZanoP2pool.Foundation.Apportion
import ZanoP2pool.Foundation.ArrayLoops
import ZanoP2pool.Foundation.BigEndian
import ZanoP2pool.Foundation.Counting
import ZanoP2pool.Foundation.Cursor
import ZanoP2pool.Foundation.Effect
import ZanoP2pool.Foundation.FixedDigits
import ZanoP2pool.Foundation.Format
import ZanoP2pool.Foundation.HashTree
import ZanoP2pool.Foundation.KeccakSponge
import ZanoP2pool.Foundation.KeyedList
import ZanoP2pool.Foundation.KeyedSum
import ZanoP2pool.Foundation.Lineage
import ZanoP2pool.Foundation.LineageLog
import ZanoP2pool.Foundation.LittleEndian
import ZanoP2pool.Foundation.PairTree
import ZanoP2pool.Foundation.Pipe
import ZanoP2pool.Foundation.ReaderSimulation
import ZanoP2pool.Foundation.Selection
import ZanoP2pool.Foundation.SelfDelimiting
import ZanoP2pool.Foundation.TreeMap
import ZanoP2pool.Foundation.Varint
import ZanoP2pool.Foundation.VarintFormat
import ZanoP2pool.Foundation.Words
import ZanoP2pool.Foundation.Zoom
import ZanoP2pool.HistoricalAnchor
import ZanoP2pool.HistoricalPayout
import ZanoP2pool.HistoricalTrust
import ZanoP2pool.HistoricalWork
import ZanoP2pool.KeccakRefinement
import ZanoP2pool.MinerTxPrefixes
import ZanoP2pool.MiningHeader
import ZanoP2pool.MiningHeaderCommitment
import ZanoP2pool.MiningHeaderLayout
import ZanoP2pool.MiningWorkDirectory
import ZanoP2pool.MiningWorkPublication
import ZanoP2pool.MiningWorkPuts
import ZanoP2pool.MiningWorkRecords
import ZanoP2pool.P2pConnection
import ZanoP2pool.P2pMessages
import ZanoP2pool.P2pMinerTxBinding
import ZanoP2pool.P2pMinerTxProofs
import ZanoP2pool.P2pMiningContext
import ZanoP2pool.P2pMiningContextCodec
import ZanoP2pool.P2pMiningContextTrust
import ZanoP2pool.P2pNode
import ZanoP2pool.P2pNodeCaches
import ZanoP2pool.P2pNodeChain
import ZanoP2pool.P2pNodeExpectation
import ZanoP2pool.P2pNodeHandle
import ZanoP2pool.P2pNodeOps
import ZanoP2pool.P2pNodeSections
import ZanoP2pool.P2pNodeSteps
import ZanoP2pool.P2pOutbound
import ZanoP2pool.P2pPayoutPolicy
import ZanoP2pool.P2pPayoutPolicyLaws
import ZanoP2pool.P2pPeerScore
import ZanoP2pool.P2pPeerStream
import ZanoP2pool.P2pProtocol
import ZanoP2pool.P2pRuntime
import ZanoP2pool.P2pShare
import ZanoP2pool.P2pSync
import ZanoP2pool.P2pWireFormat
import ZanoP2pool.P2pWorkRetrieval
import ZanoP2pool.PowTarget
import ZanoP2pool.Pplns
import ZanoP2pool.PplnsAllocation
import ZanoP2pool.PplnsCoinbase
import ZanoP2pool.PplnsCoinbasePlan
import ZanoP2pool.PplnsCredits
import ZanoP2pool.PplnsSidechainPlan
import ZanoP2pool.PplnsTemplate
import ZanoP2pool.PplnsWindow
import ZanoP2pool.ProofSlicing
import ZanoP2pool.Reconciliation
import ZanoP2pool.ReconciliationExact
import ZanoP2pool.ReplayValidationFormat
import ZanoP2pool.ReplayValidationStore
import ZanoP2pool.RestartCache
import ZanoP2pool.RestartRecovery
import ZanoP2pool.RestartValidation
import ZanoP2pool.RetargetExact
import ZanoP2pool.RetargetTotal
import ZanoP2pool.Share
import ZanoP2pool.ShareBytes
import ZanoP2pool.ShareChain
import ZanoP2pool.ShareChainAdmission
import ZanoP2pool.ShareChainAtomicity
import ZanoP2pool.ShareChainBestChain
import ZanoP2pool.ShareChainBranch
import ZanoP2pool.ShareChainChange
import ZanoP2pool.ShareChainExportOrder
import ZanoP2pool.ShareChainIndex
import ZanoP2pool.ShareChainInvariants
import ZanoP2pool.ShareChainOrderFree
import ZanoP2pool.ShareChainPool
import ZanoP2pool.ShareChainPromotion
import ZanoP2pool.ShareChainPruning
import ZanoP2pool.ShareChainReachable
import ZanoP2pool.ShareChainRecovery
import ZanoP2pool.ShareChainReplay
import ZanoP2pool.ShareChainRestore
import ZanoP2pool.ShareChainRestoreLaws
import ZanoP2pool.ShareChainRevalidation
import ZanoP2pool.ShareChainTip
import ZanoP2pool.ShareChainTotal
import ZanoP2pool.ShareChainTrust
import ZanoP2pool.ShareCodec
import ZanoP2pool.ShareLogReplay
import ZanoP2pool.ShareSnapshotReplay
import ZanoP2pool.ShareSolutions
import ZanoP2pool.ShareStore
import ZanoP2pool.ShareStoreErasure
import ZanoP2pool.ShareStoreLog
import ZanoP2pool.ShareStoreRecords
import ZanoP2pool.ShareStoreRepair
import ZanoP2pool.ShareValidation
import ZanoP2pool.SidechainDifficulty
import ZanoP2pool.SidechainParams
import ZanoP2pool.SidechainRules
import ZanoP2pool.StratumAdmission
import ZanoP2pool.StratumFields
import ZanoP2pool.StratumJobs
import ZanoP2pool.StratumProtocol
import ZanoP2pool.StratumRequests
import ZanoP2pool.StratumServer
import ZanoP2pool.StratumSession
import ZanoP2pool.StratumSubmission
import ZanoP2pool.SubmittedBlock
import ZanoP2pool.SubmitterRuns
import ZanoP2pool.SubtreeRemoval
import ZanoP2pool.TransactionTree
import ZanoP2pool.VarintReaders
import ZanoP2pool.WorkRetrievalBounds
import ZanoP2pool.WorkRetrievalDelivery
import ZanoP2pool.WorkRetrievalSteps
import ZanoP2pool.ZanoAddress
import ZanoP2pool.ZanoAddressEncoding
import ZanoP2pool.ZanoSidechainIds
