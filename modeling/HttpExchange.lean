import HttpExchange.Address
import HttpExchange.Body.Chunk
import HttpExchange.Body.Content
import HttpExchange.Body.Decoder
import HttpExchange.Body.Delivery
import HttpExchange.Body.Error
import HttpExchange.Body.Link
import HttpExchange.Body.Producer
import HttpExchange.Bytes
import HttpExchange.Client.Config
import HttpExchange.Client.Draft
import HttpExchange.Client.Error
import HttpExchange.Client.Exchange
import HttpExchange.Client.Script
import HttpExchange.Conversation
import HttpExchange.Duplex
import HttpExchange.Framing
import HttpExchange.Head.Error
import HttpExchange.Head.Fields
import HttpExchange.Head.Method
import HttpExchange.Head.Request
import HttpExchange.Head.Response
import HttpExchange.Head.Status
import HttpExchange.Head.Version
import HttpExchange.Json.Printer
import HttpExchange.Json.Reader
import HttpExchange.Json.Shortest
import HttpExchange.Json.Value
import HttpExchange.Lifecycle
import HttpExchange.Proofs.Address
import HttpExchange.Proofs.Body.Alike
import HttpExchange.Proofs.Body.Answering
import HttpExchange.Proofs.Body.Breaking
import HttpExchange.Proofs.Body.Cancellation
import HttpExchange.Proofs.Body.Chunk
import HttpExchange.Proofs.Body.Chunked
import HttpExchange.Proofs.Body.Closing
import HttpExchange.Proofs.Body.Consumption
import HttpExchange.Proofs.Body.Content
import HttpExchange.Proofs.Body.Declared
import HttpExchange.Proofs.Body.Decoding
import HttpExchange.Proofs.Body.Demand
import HttpExchange.Proofs.Body.Elapsing
import HttpExchange.Proofs.Body.Failing
import HttpExchange.Proofs.Body.Flow
import HttpExchange.Proofs.Body.Grammar
import HttpExchange.Proofs.Body.History
import HttpExchange.Proofs.Body.Idling
import HttpExchange.Proofs.Body.InFlight
import HttpExchange.Proofs.Body.Lateness
import HttpExchange.Proofs.Body.Life
import HttpExchange.Proofs.Body.Likeness
import HttpExchange.Proofs.Body.Looping
import HttpExchange.Proofs.Body.Order
import HttpExchange.Proofs.Body.Producing
import HttpExchange.Proofs.Body.Progress
import HttpExchange.Proofs.Body.Pulling
import HttpExchange.Proofs.Body.Reading
import HttpExchange.Proofs.Body.Relaying
import HttpExchange.Proofs.Body.Remainder
import HttpExchange.Proofs.Body.Report
import HttpExchange.Proofs.Body.Rounds
import HttpExchange.Proofs.Body.Settling
import HttpExchange.Proofs.Body.Size
import HttpExchange.Proofs.Body.Stalling
import HttpExchange.Proofs.Body.Standing
import HttpExchange.Proofs.Body.Steady
import HttpExchange.Proofs.Body.Stopping
import HttpExchange.Proofs.Body.Timing
import HttpExchange.Proofs.Body.Transfer
import HttpExchange.Proofs.Client.Head
import HttpExchange.Proofs.Client.Headless
import HttpExchange.Proofs.Client.Precedence
import HttpExchange.Proofs.Client.RoundTrip
import HttpExchange.Proofs.Client.Tracking
import HttpExchange.Proofs.Client.Unsent
import HttpExchange.Proofs.Framing
import HttpExchange.Proofs.Head.Accepting
import HttpExchange.Proofs.Head.Announced
import HttpExchange.Proofs.Head.Closing
import HttpExchange.Proofs.Head.Fields
import HttpExchange.Proofs.Head.Folding
import HttpExchange.Proofs.Head.Form
import HttpExchange.Proofs.Head.Layout
import HttpExchange.Proofs.Head.Owned
import HttpExchange.Proofs.Head.Parse
import HttpExchange.Proofs.Head.Query
import HttpExchange.Proofs.Head.Spelling
import HttpExchange.Proofs.Head.StatusLine
import HttpExchange.Proofs.Head.Trailing
import HttpExchange.Proofs.Head.Written
import HttpExchange.Proofs.Lifecycle
import HttpExchange.Proofs.Route.Grammar
import HttpExchange.Proofs.Route.Matching
import HttpExchange.Proofs.Route.Table
import HttpExchange.Proofs.Route.Template
import HttpExchange.Proofs.Server.Account
import HttpExchange.Proofs.Server.BrokenOff
import HttpExchange.Proofs.Server.Capacity
import HttpExchange.Proofs.Server.Closing
import HttpExchange.Proofs.Server.Head
import HttpExchange.Proofs.Server.InFlight
import HttpExchange.Proofs.Server.Interleaving
import HttpExchange.Proofs.Server.Likeness
import HttpExchange.Proofs.Server.Place
import HttpExchange.Proofs.Server.Refusal
import HttpExchange.Proofs.Server.Relaying
import HttpExchange.Proofs.Server.RoundTrip
import HttpExchange.Proofs.Server.Segmentation
import HttpExchange.Proofs.Server.Sending
import HttpExchange.Proofs.Server.Serial
import HttpExchange.Proofs.Server.Stalling
import HttpExchange.Proofs.Server.Timing
import HttpExchange.Proofs.Server.Truncation
import HttpExchange.Proofs.Server.Turns
import HttpExchange.Proofs.Server.Unanswered
import HttpExchange.Proofs.Text.Digits
import HttpExchange.Proofs.Text.Numeral
import HttpExchange.Proofs.Text.Pieces
import HttpExchange.Proofs.Text.Split
import HttpExchange.Proofs.Text.Utf8
import HttpExchange.Proofs.Wire.Alike
import HttpExchange.Proofs.Wire.Broken
import HttpExchange.Proofs.Wire.Elapsing
import HttpExchange.Proofs.Wire.Extent
import HttpExchange.Proofs.Wire.Failing
import HttpExchange.Proofs.Wire.Head
import HttpExchange.Proofs.Wire.Line
import HttpExchange.Proofs.Wire.Punctual
import HttpExchange.Proofs.Wire.Receive
import HttpExchange.Proofs.Wire.Sending
import HttpExchange.Proofs.Wire.Signal
import HttpExchange.Proofs.Wire.Supply
import HttpExchange.Proofs.Wire.Taking
import HttpExchange.Proofs.Wire.Timing
import HttpExchange.Proofs.Wire.Waiting
import HttpExchange.Proofs.Wire.Whole
import HttpExchange.Route.Error
import HttpExchange.Route.Table
import HttpExchange.Route.Template
import HttpExchange.Server.Acceptor
import HttpExchange.Server.Config
import HttpExchange.Server.Connection
import HttpExchange.Server.Error
import HttpExchange.Server.Handler
import HttpExchange.Server.Request
import HttpExchange.Server.Response
import HttpExchange.Server.Script
import HttpExchange.Text.Blank
import HttpExchange.Text.Fold
import HttpExchange.Text.Numeral
import HttpExchange.Text.Split
import HttpExchange.Text.Utf8
import HttpExchange.Wire.Clock
import HttpExchange.Wire.Error
import HttpExchange.Wire.Fault
import HttpExchange.Wire.Head
import HttpExchange.Wire.Reader
import HttpExchange.Wire.Writer
