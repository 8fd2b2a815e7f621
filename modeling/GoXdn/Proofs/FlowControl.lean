import Mathlib
import GoXdn.Les.FlowControl

/-!
# Requests that cost more than the buffer are free

The buffer never leaves `[0, BufLimit]` (`recalcBV_le`, `requestProcessed_le`), and a charge the
buffer covers is taken off exactly (`charge_of_le`). But `reject` compares the buffer with the cost
capped at `BufLimit`, while `RequestProcessed` subtracts the cost itself: a request that costs
more than `BufLimit` is admitted whenever the buffer is full, and `bufValue -= cost` then wraps
around to a number above `BufLimit`, which the next `recalcBV` cuts back to `BufLimit`. The client
ends the request with a full buffer (`serveRequest_costly`), so requests of such a code are never
held back, one after another at any pace (`serveRun_costly_stays_full`).
-/

namespace GoXdn.Les

namespace ClientNode

variable (params : ServerParams)

/-- What `recalcBV` keeps of a sum: the limit where it is above it. -/
lemma clamp_le (b l : UInt64) : (if b > l then l else b) ≤ l := by
  split_ifs with h
  · exact UInt64.le_rfl
  · exact UInt64.not_lt.mp h

/-- A buffer within a limit below `2^63`, recharged by less than `2^45`, does not wrap and does
not go down. -/
lemma le_clamp_add {b x l : UInt64} (hb : b ≤ l) (hl : l.toNat < 2 ^ 63) (hx : x.toNat < 2 ^ 45) :
    b ≤ if b + x > l then l else b + x := by
  rw [UInt64.le_iff_toNat_le] at hb
  split_ifs
  · exact UInt64.le_iff_toNat_le.mpr hb
  · rw [UInt64.le_iff_toNat_le, UInt64.toNat_add, Nat.mod_eq_of_lt (by omega)]
    omega

theorem recalcBV_le (peer : ClientNode) (time : ℤ) : (peer.recalcBV params time).bufValue ≤ params.bufLimit :=
  clamp_le _ _

@[simp]
theorem recalcBV_lastTime (peer : ClientNode) (time : ℤ) : (peer.recalcBV params time).lastTime = time := rfl

/-- The recharge of one `recalcBV` is below `2^64 / 10^6`. -/
lemma recharge_lt (dt : UInt64) : (params.minRecharge * dt / fcTimeConst).toNat < 2 ^ 45 := by
  rw [UInt64.toNat_div]
  have h := (params.minRecharge * dt).toNat_lt
  have hc : fcTimeConst.toNat = 1000000 := rfl
  rw [hc]
  omega

/-- Under a limit below `2^63`, a recharge never lowers a buffer within the limit. -/
theorem le_recalcBV {peer : ClientNode} (hlimit : params.bufLimit.toNat < 2 ^ 63)
    (hle : peer.bufValue ≤ params.bufLimit) (time : ℤ) : peer.bufValue ≤ (peer.recalcBV params time).bufValue :=
  le_clamp_add hle hlimit (recharge_lt params _)

/-- A full buffer stays full when recharged. -/
theorem recalcBV_full {peer : ClientNode} (hlimit : params.bufLimit.toNat < 2 ^ 63)
    (hfull : peer.bufValue = params.bufLimit) (time : ℤ) : (peer.recalcBV params time).bufValue = params.bufLimit :=
  UInt64.le_antisymm (recalcBV_le params peer time) (hfull ▸ le_recalcBV params hlimit (hfull ▸ UInt64.le_rfl) time)

/-- A second recharge at the same time adds nothing but the cut to the limit. -/
theorem recalcBV_same (peer : ClientNode) (b : UInt64) (time : ℤ) :
    ({ (peer.recalcBV params time) with bufValue := b } : ClientNode).recalcBV params time =
      ⟨if b > params.bufLimit then params.bufLimit else b, time⟩ := by
  have hzero : params.minRecharge * UInt64.ofNat (time - time).toNat / fcTimeConst = 0 := by
    simp
  simp only [recalcBV, lt_irrefl, if_false, hzero, UInt64.add_zero]

/-- A charge the recharged buffer covers is taken off exactly. -/
theorem charge_of_le {peer : ClientNode} {cost : UInt64} {now : ℤ} (h : cost ≤ (peer.recalcBV params now).bufValue) :
    (peer.charge params cost now).bufValue = (peer.recalcBV params now).bufValue - cost := by
  have hle := UInt64.le_iff_toNat_le.mp (recalcBV_le params peer now)
  have hcost := UInt64.le_iff_toNat_le.mp h
  rw [charge, recalcBV_same, if_neg]
  rw [UInt64.not_lt, UInt64.le_iff_toNat_le, UInt64.toNat_sub_of_le _ _ h]
  omega

/-- A charge above a full buffer wraps around above the limit and is cut back to it. -/
theorem charge_of_full {peer : ClientNode} {cost : UInt64} {now : ℤ}
    (hfull : (peer.recalcBV params now).bufValue = params.bufLimit) (hcost : params.bufLimit < cost) :
    (peer.charge params cost now).bufValue = params.bufLimit := by
  rw [charge, recalcBV_same, if_pos]
  have hlt := UInt64.lt_iff_toNat_lt.mp hcost
  have hc := cost.toNat_lt
  rw [hfull, gt_iff_lt, UInt64.lt_iff_toNat_lt, UInt64.toNat_sub, Nat.mod_eq_of_lt (by omega)]
  omega

theorem requestProcessed_le (peer : ClientNode) (cost : UInt64) (now : ℤ) (rcValue : UInt64) :
    (peer.requestProcessed params cost now rcValue).1 ≤ params.bufLimit := by
  unfold requestProcessed
  dsimp only
  split_ifs with h
  · exact UInt64.sub_le (UInt64.le_of_lt h.1)
  · exact recalcBV_le params _ now

end ClientNode

/-- A request of a code whose cost is above `BufLimit` is admitted from a full buffer and leaves
it full. -/
theorem serveRequest_costly {params : ServerParams} {req : Request} {peer : ClientNode}
    (hlimit : params.bufLimit.toNat < 2 ^ 63) (hfull : peer.bufValue = params.bufLimit)
    (hcnt : req.reqCnt ≤ req.maxCnt) (hcost : params.bufLimit < req.costs.baseCost + req.reqCnt * req.costs.reqCost) :
    ∃ peer', serveRequest params req peer = some peer' ∧ peer'.bufValue = params.bufLimit := by
  have haccept := ClientNode.recalcBV_full params hlimit hfull req.tAccept
  have hreject : reject params req.costs peer req.reqCnt req.maxCnt req.tAccept =
      (false, peer.recalcBV params req.tAccept) := by
    simp only [reject, ClientNode.acceptRequest, if_neg (UInt64.not_lt.mpr hcnt), if_pos hcost, haccept,
      UInt64.lt_irrefl, decide_false]
  have hprocess := ClientNode.recalcBV_full params hlimit haccept req.tProcess
  have hcharged := ClientNode.charge_of_full params hprocess hcost
  unfold serveRequest
  rw [hreject]
  refine ⟨_, rfl, ?_⟩
  unfold ClientNode.requestProcessed
  dsimp only
  rw [if_neg]
  · exact hcharged
  · rintro ⟨hrc, hgt⟩
    rw [hcharged] at hgt
    exact UInt64.not_lt.mpr (UInt64.sub_le (UInt64.le_of_lt hrc)) hgt

theorem serveRun_costly_stays_full (params : ServerParams) (hlimit : params.bufLimit.toNat < 2 ^ 63) :
    ∀ (reqs : List Request) (peer : ClientNode), peer.bufValue = params.bufLimit →
      (∀ req ∈ reqs, req.reqCnt ≤ req.maxCnt ∧ params.bufLimit < req.costs.baseCost + req.reqCnt * req.costs.reqCost) →
      ∃ peer', serveRun params peer reqs = some peer' ∧ peer'.bufValue = params.bufLimit
  | [], peer, hfull, _ => ⟨peer, rfl, hfull⟩
  | req :: reqs, peer, hfull, hreqs => by
    obtain ⟨hcnt, hcost⟩ := hreqs req List.mem_cons_self
    obtain ⟨peer₁, hserve, hfull₁⟩ := serveRequest_costly hlimit hfull hcnt hcost
    rw [serveRun, hserve, Option.bind_some]
    exact serveRun_costly_stays_full params hlimit reqs peer₁ hfull₁ fun r hr => hreqs r (List.mem_cons_of_mem _ hr)

/-- The server's own parameters, `BufLimit = 300000000` and `MinRecharge = 50000`. -/
def serverParams : ServerParams := ⟨300000000, 50000⟩

/-- `GetBlockBodiesMsg` for `MaxBodyFetch = 32` bodies, where the cost table prices a body at
`10000000`, admitted and charged at the same instant. -/
def bodiesRequest : Request := ⟨⟨0, 10000000⟩, 32, 32, 0, 0, 0⟩

theorem serveRun_costly_stays_full_bodies :
    serverParams.bufLimit.toNat < 2 ^ 63 ∧ (ClientNode.new serverParams 0).bufValue = serverParams.bufLimit ∧
      (∀ req ∈ [bodiesRequest, bodiesRequest, bodiesRequest],
        req.reqCnt ≤ req.maxCnt ∧ serverParams.bufLimit < req.costs.baseCost + req.reqCnt * req.costs.reqCost) ∧
      ∃ peer', serveRun serverParams (ClientNode.new serverParams 0) [bodiesRequest, bodiesRequest, bodiesRequest] =
        some peer' ∧ peer'.bufValue = serverParams.bufLimit := by
  have hlimit : serverParams.bufLimit.toNat < 2 ^ 63 := by decide
  have hreqs : ∀ req ∈ [bodiesRequest, bodiesRequest, bodiesRequest],
      req.reqCnt ≤ req.maxCnt ∧ serverParams.bufLimit < req.costs.baseCost + req.reqCnt * req.costs.reqCost := by
    decide
  exact ⟨hlimit, rfl, hreqs, serveRun_costly_stays_full serverParams hlimit _ _ rfl hreqs⟩

end GoXdn.Les
