import Mathlib

/-!
# Flow control of a light server's clients

`les/flowcontrol/control.go` with the `reject` closure of `ProtocolManager.handleMsg` in
`les/handler.go`. Each client has a buffer value, recharged over time at `MinRecharge` per
millisecond up to `BufLimit`. A request of `reqCnt` items of a message code costs
`baseCost + reqCnt*reqCost` by the code's entry of the cost table: `reject` admits it when the
cost, capped at `BufLimit`, is within the buffer, and once it is served `RequestProcessed` takes
the cost, not capped, off the buffer. The buffer, the costs and the limits are `uint64`; the
times are `mclock` nanoseconds.

What the server's `ClientManager` contributes to the charge is the `rcValue` its `processed`
returns, which only raises the buffer to `BufLimit - rcValue`; it is the request's input here.
-/

namespace GoXdn.Les

/-- `ServerParams`. -/
structure ServerParams where
  bufLimit : UInt64
  minRecharge : UInt64

/-- `fcTimeConst`: a millisecond, in the nanoseconds of `mclock`. -/
def fcTimeConst : UInt64 := 1000000

/-- The fields of a `ClientNode` its flow control reads: the buffer value and the time of the
last recharge. -/
structure ClientNode where
  bufValue : UInt64
  lastTime : ℤ

namespace ClientNode

variable (params : ServerParams)

/-- `NewClientNode`: a full buffer. -/
def new (now : ℤ) : ClientNode := ⟨params.bufLimit, now⟩

/-- `recalcBV(time)`: the recharge since the last time, up to the limit. -/
def recalcBV (peer : ClientNode) (time : ℤ) : ClientNode :=
  let dt : UInt64 := if time < peer.lastTime then 0 else UInt64.ofNat (time - peer.lastTime).toNat
  let bufValue := peer.bufValue + params.minRecharge * dt / fcTimeConst
  ⟨if bufValue > params.bufLimit then params.bufLimit else bufValue, time⟩

/-- `AcceptRequest()` at `now`: the buffer value, recharged. -/
def acceptRequest (peer : ClientNode) (now : ℤ) : UInt64 × ClientNode :=
  let peer := peer.recalcBV params now
  (peer.bufValue, peer)

/-- The charge of `RequestProcessed`: `peer.bufValue -= cost` between two recharges. -/
def charge (peer : ClientNode) (cost : UInt64) (now : ℤ) : ClientNode :=
  let peer := peer.recalcBV params now
  ({ peer with bufValue := peer.bufValue - cost } : ClientNode).recalcBV params now

/-- `RequestProcessed(cost)` at `now`, where the client manager's `processed` reports
`rcValue`: the buffer is charged, then raised to `BufLimit - rcValue` if below it. -/
def requestProcessed (peer : ClientNode) (cost : UInt64) (now : ℤ) (rcValue : UInt64) : UInt64 × ClientNode :=
  let peer := peer.charge params cost now
  let peer : ClientNode :=
    if rcValue < params.bufLimit ∧ params.bufLimit - rcValue > peer.bufValue then
      { peer with bufValue := params.bufLimit - rcValue }
    else peer
  (peer.bufValue, peer)

end ClientNode

/-- `requestCosts`: a message code's entry of the cost table. -/
structure RequestCosts where
  baseCost : UInt64
  reqCost : UInt64

/-- The `reject(reqCnt, maxCnt)` closure at `now`: whether the request is turned away, and the
client after its `AcceptRequest`. A server peer always has its client node. -/
def reject (params : ServerParams) (costs : RequestCosts) (peer : ClientNode) (reqCnt maxCnt : UInt64)
    (now : ℤ) : Bool × ClientNode :=
  if reqCnt > maxCnt then (true, peer)
  else
    let accepted := peer.acceptRequest params now
    let cost := costs.baseCost + reqCnt * costs.reqCost
    let cost := if cost > params.bufLimit then params.bufLimit else cost
    (decide (cost > accepted.1), accepted.2)

/-- A request message of a client as `handleMsg` meets it: its code's costs, its count and the
code's limit (`MaxBodyFetch` and the like), the times of its `AcceptRequest` and
`RequestProcessed`, and the `rcValue` the client manager reports once it is served. -/
structure Request where
  costs : RequestCosts
  reqCnt : UInt64
  maxCnt : UInt64
  tAccept : ℤ
  tProcess : ℤ
  rcValue : UInt64

/-- A request handled: `none` when `reject` turns it away (the handler returns
`ErrRequestRejected` and the peer is dropped), else the client after `RequestProcessed`. -/
def serveRequest (params : ServerParams) (req : Request) (peer : ClientNode) : Option ClientNode :=
  let rejected := reject params req.costs peer req.reqCnt req.maxCnt req.tAccept
  if rejected.1 then none
  else
    some (rejected.2.requestProcessed params (req.costs.baseCost + req.reqCnt * req.costs.reqCost)
      req.tProcess req.rcValue).2

/-- The requests of one client handled one after another, as its `handleMsg` loop does. -/
def serveRun (params : ServerParams) : ClientNode → List Request → Option ClientNode
  | peer, [] => some peer
  | peer, req :: reqs => (serveRequest params req peer).bind fun peer => serveRun params peer reqs

end GoXdn.Les
