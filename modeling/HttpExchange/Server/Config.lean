import HttpExchange.Address

/-!
What a server is set up with.
-/

namespace HttpExchange

structure ServerConfig where
  /-- The address to listen on. -/
  address : Address := .loopback 8080
  /-- The most connections that are served at one time. -/
  maxConnections : Nat := 1024
  /-- The size of the read buffer, which also bounds the pieces of a request body. -/
  readBufferSize : Nat := 8192
  /-- The most bytes that a request head may have. -/
  maxHeadSize : Nat := 16384
  /-- Whether a connection may carry another exchange. -/
  keepAlive : Bool := true
  /-- How long, in milliseconds, the producer of a response body may be silent. -/
  bodyIdleTimeout : Option Nat := some 60000
  deriving DecidableEq, Repr

end HttpExchange
