import Keraunos.Lib.Word
import Keraunos.Router.FindRoute

/-!
# Pathfinding on words (`router/mod.rs`, `graph/mod.rs`)

Fees, the default scorer and the search with the arithmetic of the source: amounts and penalties are
`u64`s, expiries `u32`s, and sums and products are unchecked operators but where the source saturates.
-/

open Bitcoin

/-- `fee_for`. -/
def DirectionalInfo.feeFor64 {ε : Type} (m : Overflow) (p : DirectionalInfo) (amount : Msat) :
    Except (Fault ε) Msat := do
  let product ← m.mul amount p.feeProportionalMillionths
  m.add p.feeBaseMsat (product / 1000000)

namespace Router

section
variable {ε : Type} (m : Overflow) (scorer : DefaultScorer)

/-- The capacity of a channel, in msat. -/
def capacity64 (capacitySat : Option Nat) : Except (Fault ε) (Option Msat) :=
  match capacitySat with
  | none => return none
  | some cap => do
    let capMsat ← m.mul cap 1000
    return some capMsat

def DefaultScorer.penaltyMsat64 (edge : EdgeCandidate) : Except (Fault ε) Nat := do
  let delay ← m.mul scorer.cltvPenaltyPerBlockMsat edge.policy.cltvExpiryDelta
  let penalty ← m.add scorer.basePenaltyMsat delay
  let capacity ← capacity64 m edge.capacitySat
  match capacity.filter (0 < ·) with
  | none => return penalty
  | some cap => do
    let usedPpm := min (edge.amountMsat * 1000000) (2 ^ 64 - 1) / cap
    let square ← m.mul usedPpm usedPpm
    m.add penalty (square / 1000)

variable (graph : NetworkGraph) (params : RouteParams)

/-- Relax an edge that can carry the amount. -/
def relaxInto64 (node : PublicKey) (state : NodeState) (s : Search) (e : Edge) (fee amountIn : Msat) :
    Except (Fault ε) Search := do
  let penalty ← scorer.penaltyMsat64 m
    ⟨e.shortChannelId, e.source, node, e.policy, e.capacitySat, amountIn⟩
  let cost := saturatingAdd (saturatingAdd state.cost fee) penalty
  if s.better e.source cost then
    let cltv ← m.add32 state.cltv e.policy.cltvExpiryDelta
    return s.push e.source
      { amount := amountIn
        cltv := cltv
        cost := cost
        next := some ⟨node, e.shortChannelId, state.amount, state.cltv⟩
        hopsToPayee := state.hopsToPayee + 1 }
  else return s

def relax64 (node : PublicKey) (state : NodeState) (s : Search) (e : Edge) :
    Except (Fault ε) Search :=
  if e.source = params.payee then return s
  else if e.source = params.payer then return s
  else do
    let fee ← e.policy.feeFor64 m state.amount
    let amountIn ← m.add state.amount fee
    if amountIn < e.policy.htlcMinimumMsat then return s
    else if amountIn > e.policy.htlcMaximumMsat then return s
    else
      let capacity ← capacity64 m e.capacitySat
      if capacity.any fun cap => amountIn > cap then return s
      else relaxInto64 m scorer node state s e fee amountIn

def visit64 (s : Search) (cost : Nat) (node : PublicKey) (state : NodeState) :
    Except (Fault ε) Search :=
  if state.cost < cost then return s
  else if state.hopsToPayee ≥ params.maxHops then return s
  else (edgesInto graph params node).foldlM (relax64 m scorer params node state)
    (startHere params s node state)

def search64 : Nat → Search → Except (Fault ε) Search
  | 0, s => return s
  | fuel + 1, s =>
    match h : pop s.heap with
    | none => return s
    | some ((cost, node), rest) => do
      have hnode := Search.known_top h
      let popped : Search := ⟨s.best, rest, Search.known_rest h⟩
      let visited ← visit64 m scorer graph params popped cost node ((s.best.lookup node).get hnode)
      search64 fuel visited

end

/-- The route that the states lead to. -/
def routeOf (params : RouteParams) (best : Table PublicKey NodeState) : Except RouteError Route :=
  match best.lookup params.payer with
  | none => .error .noPath
  | some payerState => do
    let hops ← walk params best params.maxHops payerState.next
    if hops.getLast?.map (·.nodeId) ≠ some params.payee then .error .noPath
    else .ok ⟨hops, payerState.amount, payerState.cltv⟩

def findRoute64 (m : Overflow) (graph : NetworkGraph) (scorer : DefaultScorer) (params : RouteParams) :
    Except (Fault RouteError) Route := do
  let s ← search64 m scorer graph params (fuel graph params) (start params)
  (routeOf params s.best).mapError .err

theorem findRoute_eq_routeOf (graph : NetworkGraph) (scorer : PathScorer) (params : RouteParams) :
    findRoute graph scorer params =
      routeOf params (search graph scorer params (fuel graph params) (start params)).best := rfl

end Router
