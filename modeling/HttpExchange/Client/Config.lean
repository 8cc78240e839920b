import HttpExchange.Address

/-!
What a client is set up with.
-/

namespace HttpExchange

structure ClientConfig where
  /-- The server to connect to. -/
  address : Address := .loopback 8080
  /-- The size of the read buffer, which also bounds the pieces of a response body. -/
  readBufferSize : Nat := 8192
  /-- The most bytes that a response head may have. -/
  maxHeadSize : Nat := 16384
  /-- Fields of every request that does not set them itself. -/
  defaults : List (String × String) := [("User-Agent", "flowhttp-rs")]
  deriving DecidableEq, Repr

end HttpExchange
