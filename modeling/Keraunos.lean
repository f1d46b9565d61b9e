import Keraunos.Lib.Act
import Keraunos.Lib.Bytes
import Keraunos.Lib.Blocks
import Keraunos.Lib.Digits
import Keraunos.Lib.FirstMatch
import Keraunos.Lib.BestFirst
import Keraunos.Lib.Parse
import Keraunos.Lib.Run
import Keraunos.Lib.Sort
import Keraunos.Lib.Word
import Keraunos.Crypto
import Keraunos.Crypto.Sha256
import Keraunos.Crypto.Hkdf
import Keraunos.Crypto.Poly1305
import Keraunos.Crypto.Proof.Sha256
import Keraunos.Crypto.Proof.Hkdf
import Keraunos.Crypto.Proof.Poly1305
import Keraunos.Keys
import Keraunos.Shachain.Store
import Keraunos.Shachain.Proof.Sound
import Keraunos.Shachain.Proof.Complete
import Keraunos.Wire.Ser
import Keraunos.Wire.Tlv
import Keraunos.Wire.Msgs
import Keraunos.Wire.Codec
import Keraunos.Wire.Word
import Keraunos.Wire.Proof.Primitives
import Keraunos.Wire.Proof.RoundTrip
import Keraunos.Wire.Proof.Gossip
import Keraunos.Wire.Proof.Streams
import Keraunos.Wire.Proof.Features
import Keraunos.Onion.Packet
import Keraunos.Onion.Payload
import Keraunos.Onion.Proof.Peel
import Keraunos.Onion.Proof.Sphinx
import Keraunos.Onion.Proof.Payload
import Keraunos.Onion.Proof.Failure
import Keraunos.Bitcoin.Tx
import Keraunos.Bitcoin.Codec
import Keraunos.Bitcoin.Proof.Codec
import Keraunos.Bitcoin.Proof.Canonical
import Keraunos.Invoice.Bech32
import Keraunos.Invoice.Bolt11
import Keraunos.Invoice.Proof.Bech32
import Keraunos.Invoice.Proof.Groups
import Keraunos.Invoice.Proof.RoundTrip
import Keraunos.Invoice.Proof.Limits
import Keraunos.Invoice.Slices
import Keraunos.Invoice.Proof.Slices
import Keraunos.Invoice.Proof.Errors
import Keraunos.Invoice.Proof.Regroup
import Keraunos.Noise.Cipher
import Keraunos.Noise.Handshake
import Keraunos.Noise.Peer
import Keraunos.Noise.Link
import Keraunos.Noise.Proof.Transport
import Keraunos.Noise.Proof.Handshake
import Keraunos.Noise.Proof.EndToEnd
import Keraunos.Noise.Proof.Poison
import Keraunos.Commitment.Build
import Keraunos.Commitment.Proof.Number
import Keraunos.Commitment.Proof.Outputs
import Keraunos.Commitment.Proof.Order
import Keraunos.Commitment.Proof.Construction
import Keraunos.Channel.State
import Keraunos.Channel.Open
import Keraunos.Channel.Dance
import Keraunos.Channel.Reestablish
import Keraunos.Channel.Close
import Keraunos.Channel.Machine
import Keraunos.Channel.Pair
import Keraunos.Channel.Ledger
import Keraunos.Channel.Word
import Keraunos.Channel.Proof.Moves
import Keraunos.Channel.Proof.Counterparts
import Keraunos.Channel.Proof.Secrets
import Keraunos.Channel.Proof.Ids
import Keraunos.Channel.Proof.Shape
import Keraunos.Channel.Proof.Balance
import Keraunos.Channel.Proof.Revocation
import Keraunos.Channel.Proof.Phases
import Keraunos.Channel.Proof.Flush
import Keraunos.Channel.Proof.Calls
import Keraunos.Channel.Proof.Rollback
import Keraunos.Channel.Proof.Unique
import Keraunos.Channel.Proof.Dirty
import Keraunos.Channel.Proof.Forward
import Keraunos.Channel.Proof.Retransmit
import Keraunos.Channel.Proof.Loss
import Keraunos.Channel.Proof.Word
import Keraunos.Channel.Proof.Limit
import Keraunos.Channel.Proof.Spend
import Keraunos.Channel.Proof.Panic
import Keraunos.Channel.Proof.Refusal
import Keraunos.Channel.Proof.Updates
import Keraunos.Channel.Proof.Progress
import Keraunos.Channel.Proof.Admission
import Keraunos.Channel.Proof.Crowd
import Keraunos.Channel.Proof.Fees
import Keraunos.Channel.Proof.ClosingFees
import Keraunos.Channel.Proof.Convergence
import Keraunos.Channel.Proof.Terms
import Keraunos.Lib.Lockstep
import Keraunos.Channel.Honest
import Keraunos.Channel.Proof.Deals
import Keraunos.Channel.Proof.Party
import Keraunos.Channel.Proof.Born
import Keraunos.Channel.Proof.InStep
import Keraunos.Channel.Proof.Mail
import Keraunos.Channel.Proof.Agreement
import Keraunos.Commitment.Proof.Countersign
import Keraunos.Keys.Manager
import Keraunos.Keys.Proof.Derive
import Keraunos.Channel.Proof.Accept
import Keraunos.Chain.Monitor
import Keraunos.Chain.Claim
import Keraunos.Chain.Justice
import Keraunos.Chain.Persist
import Keraunos.Chain.Proof.Recognise
import Keraunos.Chain.Proof.Persist
import Keraunos.Chain.Proof.Claim
import Keraunos.Chain.Proof.Counts
import Keraunos.Chain.Proof.Justice
import Keraunos.Node.State
import Keraunos.Node.Channels
import Keraunos.Node.Payments
import Keraunos.Node.Word
import Keraunos.Node.Machine
import Keraunos.Node.Transport
import Keraunos.Node.Proof.Frames
import Keraunos.Node.Proof.Moves
import Keraunos.Node.Proof.Handlers
import Keraunos.Node.Proof.Steps
import Keraunos.Node.Proof.History
import Keraunos.Node.Proof.ChannelMap
import Keraunos.Node.Proof.Isolation
import Keraunos.Node.Proof.DataLoss
import Keraunos.Node.Proof.Revoked
import Keraunos.Node.Proof.Margin
import Keraunos.Node.Proof.Links
import Keraunos.Node.Proof.Income
import Keraunos.Node.Proof.Payment
import Keraunos.Router.Graph
import Keraunos.Router.FindRoute
import Keraunos.Router.Proof.Search
import Keraunos.Router.Proof.Valid
import Keraunos.Router.Proof.Optimal
import Keraunos.Router.Proof.Order
import Keraunos.Router.Proof.Limits
import Keraunos.Lib.Latest
import Keraunos.Lib.Slice
import Keraunos.Router.Proof.Gossip
import Keraunos.Router.Word
import Keraunos.Router.Proof.Word
