import TscPow.Base.BackIndex
import TscPow.Base.Branch
import TscPow.Base.Draw
import TscPow.Base.Except
import TscPow.Base.Fault
import TscPow.Base.Flow
import TscPow.Base.Journal
import TscPow.Base.KeyedSet
import TscPow.Base.LevelTree
import TscPow.Base.Limbs
import TscPow.Base.Matching
import TscPow.Base.OrderStatistic
import TscPow.Base.Reader
import TscPow.Base.Scan
import TscPow.Base.Tally
import TscPow.Base.WriteBack
import TscPow.Chain.Accept
import TscPow.Chain.BlockIndex
import TscPow.Chain.BlockTreeDB
import TscPow.Chain.SkipList
import TscPow.Chain.Time
import TscPow.Consensus.Merkle
import TscPow.Consensus.Params
import TscPow.Consensus.PartialMerkleTree
import TscPow.Consensus.TxVerify
import TscPow.Consensus.Validation
import TscPow.Contract.Condensing
import TscPow.Contract.Conservation
import TscPow.Contract.Converter
import TscPow.Contract.Dgp
import TscPow.Contract.DgpRange
import TscPow.Contract.DgpStorage
import TscPow.Contract.Execute
import TscPow.Contract.Executive
import TscPow.Contract.Failure
import TscPow.Contract.Refunds
import TscPow.Contract.Results
import TscPow.Contract.State
import TscPow.Contract.StorageResults
import TscPow.Contract.Survival
import TscPow.Mempool.Bookkeeping
import TscPow.Mempool.HashList
import TscPow.Mempool.Orders
import TscPow.Mempool.TxMempool
import TscPow.Miner.Assembler
import TscPow.Miner.CreateNewBlock
import TscPow.Miner.Expiry
import TscPow.Miner.LuckyTickets
import TscPow.Miner.Payable
import TscPow.Miner.Rejection
import TscPow.Miner.Supply
import TscPow.Net.BlockRequest
import TscPow.Net.Collect
import TscPow.Net.Drawing
import TscPow.Net.Equivocate
import TscPow.Net.OrphanPool
import TscPow.Net.Relay
import TscPow.Node.Activate
import TscPow.Node.Converge
import TscPow.Node.Deliver
import TscPow.Node.ProcessNewBlock
import TscPow.Node.Signed
import TscPow.Pow.ArithUint256
import TscPow.Pow.BlockProof
import TscPow.Pow.Compact
import TscPow.Pow.NextWork
import TscPow.Pow.Retarget
import TscPow.Primitives.Block
import TscPow.Primitives.Serialize
import TscPow.Primitives.Stream
import TscPow.Primitives.Transaction
import TscPow.Primitives.Uint256
import TscPow.Primitives.VarInt
import TscPow.Script.FindAndDelete
import TscPow.Script.Flags
import TscPow.Script.Interpreter
import TscPow.Script.MultiSig
import TscPow.Script.Script
import TscPow.Script.ScriptNum
import TscPow.Script.SignatureEncoding
import TscPow.Script.SignatureHash
import TscPow.Script.Standard
import TscPow.Ticket.Incremental
import TscPow.Ticket.Latency
import TscPow.Ticket.Loading
import TscPow.Ticket.Pool
import TscPow.Ticket.Purchases
import TscPow.Ticket.Signatures
import TscPow.Ticket.Update
import TscPow.Validation.ActiveChain
import TscPow.Validation.BlockLimits
import TscPow.Validation.CheckBlock
import TscPow.Validation.CheckQueue
import TscPow.Validation.CoinStream
import TscPow.Validation.Coins
import TscPow.Validation.CoinsCache
import TscPow.Validation.ConnectBlock
import TscPow.Validation.DisconnectBlock
import TscPow.Validation.HeightIndex
import TscPow.Validation.LogQuery
import TscPow.Validation.Money
import TscPow.Validation.PlainChain
import TscPow.Validation.Reward
import TscPow.Validation.SupplyCap
import TscPow.Validation.TxIndex
import TscPow.Validation.UniqueIds
