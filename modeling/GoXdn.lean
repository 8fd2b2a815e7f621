import GoXdn.Lib.Buffer
import GoXdn.Lib.GoStd
import GoXdn.Lib.UndoLog
import GoXdn.Lib.SumLe
import GoXdn.Poc.Cell
import GoXdn.Poc.Plot
import GoXdn.Consensus.Dnpoc
import GoXdn.Proofs.Cell
import GoXdn.Proofs.Plot
import GoXdn.Proofs.Dnpoc
import GoXdn.Core.BlockChain
import GoXdn.Proofs.BlockChain
import GoXdn.State.StateDb
import GoXdn.Consensus.Dao
import GoXdn.State.World
import GoXdn.Proofs.Journal
import GoXdn.Vm.Instructions
import GoXdn.Vm.Evm
import GoXdn.Proofs.Calls
import GoXdn.Proofs.CallFailure
import GoXdn.Proofs.Static
import GoXdn.Core.StateTransition
import GoXdn.Proofs.Gas
import GoXdn.Proofs.Balances
import GoXdn.Proofs.Dao
import GoXdn.Proofs.StateTransition
import GoXdn.Proofs.Revert
import GoXdn.Rlp.Encode
import GoXdn.Rlp.Decode
import GoXdn.Proofs.RlpEncode
import GoXdn.Proofs.RlpStream
import GoXdn.Proofs.RlpDecode
import GoXdn.State.AccountTrie
import GoXdn.Proofs.Copy
import GoXdn.Rlp.Raw
import GoXdn.Trie.Encoding
import GoXdn.Trie.Node
import GoXdn.Trie.Trie
import GoXdn.Trie.Hasher
import GoXdn.Trie.Proof
import GoXdn.Compression.Rle
import GoXdn.Proofs.Rle
import GoXdn.Proofs.MemoryGas
import GoXdn.Proofs.Arith
import GoXdn.Proofs.PreChecks
import GoXdn.Discover.Table
import GoXdn.Proofs.Table
import GoXdn.Lib.Bitutil
import GoXdn.Core.Bloom9
import GoXdn.Bloombits.Generator
import GoXdn.Bloombits.Matcher
import GoXdn.Proofs.Bloom
import GoXdn.Proofs.Matcher
import GoXdn.Bloombits.Scheduler
import GoXdn.Proofs.Scheduler
import GoXdn.Proofs.NodeDecode
import GoXdn.Proofs.Analysis
import GoXdn.Consensus.VerifyHeaders
import GoXdn.Proofs.VerifyHeaders
import GoXdn.Consensus.Uncles
import GoXdn.Proofs.Uncles
import GoXdn.Consensus.Mine
import GoXdn.Proofs.Mine
import GoXdn.Core.TxList
import GoXdn.Proofs.SortedMap
import GoXdn.Proofs.TxList
import GoXdn.Core.TxPool
import GoXdn.Proofs.TxPool
import GoXdn.Proofs.RandomNodes
import GoXdn.Discover.Lookup
import GoXdn.Proofs.Lookup
import GoXdn.Proofs.Handler
import GoXdn.Abi.Unpack
import GoXdn.Proofs.Unpack
import GoXdn.Proofs.RlpOutput
import GoXdn.Les.FlowControl
import GoXdn.Proofs.FlowControl
import GoXdn.Xdn.Downloader
import GoXdn.Proofs.Downloader
import GoXdn.Lib.Compress
import GoXdn.Proofs.TrieEncoding
import GoXdn.Lib.Hexutil
import GoXdn.Proofs.Compress
import GoXdn.Proofs.Hexutil
import GoXdn.Proofs.RlpStack
import GoXdn.Proofs.TrieShape
import GoXdn.Proofs.TrieDelete
import GoXdn.Les.RandSelect
import GoXdn.Lib.Cumulative
import GoXdn.Proofs.TrieInvariant
import GoXdn.Proofs.RandSelect
import GoXdn.Proofs.RandChoose
import GoXdn.Xdn.Filter
import GoXdn.Proofs.Filter
