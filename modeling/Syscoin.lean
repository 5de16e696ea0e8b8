import Syscoin.Correctness.Ownership
import Syscoin.Correctness.Rules
import Syscoin.Correctness.Payment
import Syscoin.Correctness.AliasIndex
import Syscoin.Correctness.Rollback
import Syscoin.Correctness.Failure
import Syscoin.Correctness.Determinism
import Syscoin.Correctness.Inverse
import Syscoin.Correctness.Supply
import Syscoin.Correctness.Fees
import Syscoin.Correctness.Regeneration
import Syscoin.Correctness.Rescan
import Syscoin.Correctness.Verify
import Syscoin.Correctness.Selection
import Syscoin.Correctness.Mirror
import Syscoin.Chain.Miner
import Syscoin.Correctness.PoolIndex
import Syscoin.Correctness.DryRun
import Syscoin.Correctness.Template
import Syscoin.Correctness.Orphans
import Syscoin.Correctness.AuxPow
import Syscoin.Correctness.KeyPool
import Syscoin.Correctness.Bloom
import Syscoin.Correctness.Addrman
import Syscoin.Correctness.Address
import Syscoin.Correctness.SigOpCount
import Syscoin.Correctness.ServiceOutputs
import Syscoin.Correctness.Linkage
import Syscoin.Correctness.MerkleRoot
import Syscoin.Correctness.PartialMerkle
import Syscoin.Correctness.CoinsFormat
import Syscoin.Correctness.CoinsLayers
import Syscoin.Correctness.BlockFiles
import Syscoin.Correctness.CheckQueue
import Syscoin.Correctness.MinWork
import Syscoin.Correctness.BlockOrphans
import Syscoin.Correctness.BlockFormat
import Syscoin.Correctness.Activation
import Syscoin.Correctness.KeySpaces
import Syscoin.Correctness.Divisors
import Syscoin.Correctness.Prefixes
import Syscoin.Correctness.Resolution
import Syscoin.Correctness.Framing
import Syscoin.Correctness.MultiSig
import Syscoin.Correctness.TriedEviction
import Syscoin.Correctness.WalletCaches
import Syscoin.Correctness.CoinSelection
import Syscoin.Correctness.NameOutputs
import Syscoin.Correctness.WalletBalance
import Syscoin.Correctness.StackSafety
import Syscoin.Correctness.MultiSigScript
import Syscoin.Lib.Allot
import Syscoin.Wallet.Combine
import Syscoin.Correctness.Combining
import Syscoin.Network.AddrmanFormat
import Syscoin.Correctness.AddrHome
import Syscoin.Correctness.AddrStored
import Syscoin.Correctness.AddrRestart
import Syscoin.Correctness.ServiceFees
import Syscoin.Lib.Average
import Syscoin.Lib.Sparse
import Syscoin.Chain.Locator
import Syscoin.Correctness.Locator
import Syscoin.Lib.Assign
import Syscoin.Wallet.CryptoKeyStore
import Syscoin.Correctness.KeyEncryption
import Syscoin.Correctness.Payload
import Syscoin.Correctness.SignatureHash
import Syscoin.Lib.PrefixCode
import Syscoin.Script.SignatureHash
import Syscoin.Lib.Cursor
import Syscoin.Chain.BlockTreeDB
import Syscoin.Correctness.BlockIndex
import Syscoin.Lib.Descent
import Syscoin.Wallet.Sign
import Syscoin.Correctness.KeyScripts
import Syscoin.Correctness.Spendable
import Syscoin.Lib.Ring
import Syscoin.Primitives.BufferedFile
import Syscoin.Correctness.BufferedFile
import Syscoin.Chain.LoadExternal
import Syscoin.Correctness.LoadExternal
import Syscoin.Lib.TwosComplement
import Syscoin.Correctness.CanonicalSignature
import Syscoin.Primitives.VarInt
import Syscoin.Correctness.ScriptCompressor
import Syscoin.Correctness.Work
import Syscoin.Correctness.Groupings
import Syscoin.Correctness.LimitedMap
import Syscoin.Correctness.TimeData
import Syscoin.Correctness.Alerts
import Syscoin.Correctness.BaseCodes
import Syscoin.Correctness.Money
import Syscoin.Correctness.Wildcard
import Syscoin.Correctness.BaseUint
import Syscoin.Correctness.Scrypt
import Syscoin.Correctness.Serving
import Syscoin.Correctness.ControlFlow
import Syscoin.Lib.Turnover
