import FuelSequencer.Wire.Varint
import FuelSequencer.Wire.Message
import FuelSequencer.Exec.Transaction
import FuelSequencer.Go.Basic
import FuelSequencer.Bridge.RawTx
import FuelSequencer.Lib.Math
import FuelSequencer.Lib.Address
import FuelSequencer.App.Environment
import FuelSequencer.Bridge.Params
import FuelSequencer.Bridge.State
import FuelSequencer.Bridge.Accounts
import FuelSequencer.Bridge.Messages
import FuelSequencer.Abci.Generate
import FuelSequencer.Abci.Handlers
import FuelSequencer.Abci.Acceptance
import FuelSequencer.Bridge.Special
import FuelSequencer.Bridge.Delivery
import FuelSequencer.Bridge.Deposit
import FuelSequencer.Bridge.Module
import FuelSequencer.App.Block
import FuelSequencer.Bridge.Transfers
import FuelSequencer.Exec.Runs
import FuelSequencer.App.Journal
import FuelSequencer.App.Reference
import FuelSequencer.Abci.Honest
import FuelSequencer.App.Gate
import FuelSequencer.App.Admission
import FuelSequencer.Abci.Execution
import FuelSequencer.Abci.SpecialMessages
import FuelSequencer.Abci.Chain
import FuelSequencer.Abci.Sequences
import FuelSequencer.App.Supply
import FuelSequencer.App.Origin
import FuelSequencer.Exec.Table
import FuelSequencer.Sidecar.Fetch
import FuelSequencer.Sidecar.EventStore
import FuelSequencer.Sidecar.Representation
import FuelSequencer.Sidecar.Reference
import FuelSequencer.Sidecar.Query
import FuelSequencer.Sidecar.Concurrent
import FuelSequencer.Abci.Clock
import FuelSequencer.Abci.GasLimit
import FuelSequencer.Sequencing.Topics
import FuelSequencer.App.Nonces
import FuelSequencer.Bridge.Genesis
import FuelSequencer.Sequencing.Genesis
import FuelSequencer.App.Invariant
import FuelSequencer.App.Restart
import FuelSequencer.Commitments.Query
import FuelSequencer.Lib.Sha256
import FuelSequencer.Commitments.Inclusion
import FuelSequencer.Lib.Decimal
import FuelSequencer.Bridge.Coins
import FuelSequencer.Bridge.Vesting
import FuelSequencer.Bridge.Schedules
import FuelSequencer.Bridge.VestingHistory
import FuelSequencer.Bridge.Spending
import FuelSequencer.Bridge.Crediting
import FuelSequencer.Bridge.Lockup
import FuelSequencer.Sidecar.Deposits
import FuelSequencer.Abci.Blocking
import FuelSequencer.Bridge.Packing
import FuelSequencer.Bridge.TxFormat
import FuelSequencer.Abci.Slicing
import FuelSequencer.Abci.Authenticity
import FuelSequencer.Abci.Minting
import FuelSequencer.Abci.Space
import FuelSequencer.Sidecar.Extraction
import FuelSequencer.Sidecar.Genuine
import FuelSequencer.Sidecar.LogOrder
import FuelSequencer.Sidecar.Upto
import FuelSequencer.Commitments.Bounds
import FuelSequencer.Sequencing.Spelling
import FuelSequencer.Bridge.AccountJson
import FuelSequencer.Exec.Refinement
import FuelSequencer.Lib.Numeral
import FuelSequencer.Sidecar.Process
import FuelSequencer.Sidecar.Service
import FuelSequencer.Abci.System
import FuelSequencer.Abci.Liveness
import FuelSequencer.Abci.NativeShare
import FuelSequencer.Abci.Availability
import FuelSequencer.Bridge.Custody
import FuelSequencer.Bridge.Ownership
import FuelSequencer.Commitments.Binding
import FuelSequencer.Mint.Provisions
