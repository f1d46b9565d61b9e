import Keraunos.Router.Graph

/-!
# Pathfinding (`router/mod.rs`)

Backward Dijkstra from the payee, with a pluggable cost model. Fees and amounts are exact integers;
costs saturate at a word as in the code.

The heap is a list. It is a state of the search that every entry of the heap has a node state, so the
lookup after a `pop` finds one. The loop runs on fuel; the fuel of `findRoute` is enough for every
graph.
-/

open Bitcoin

namespace Router

/-- Everything known about a candidate edge, for scoring. -/
structure EdgeCandidate where
  shortChannelId : ShortChannelId
  source : PublicKey
  target : PublicKey
  policy : DirectionalInfo
  capacitySat : Option Nat
  amountMsat : Msat

/-- The penalty of an edge, in msat. -/
abbrev PathScorer : Type := EdgeCandidate → Nat

/-- `saturating_add`. -/
def saturatingAdd (a b : Nat) : Nat := min (a + b) (2 ^ 64 - 1)

/-- `DefaultScorer`, in exact integers up to the saturating product. -/
structure DefaultScorer where
  cltvPenaltyPerBlockMsat : Nat := 50
  basePenaltyMsat : Nat := 500

def DefaultScorer.penaltyMsat (s : DefaultScorer) : PathScorer := fun edge =>
  let penalty := s.basePenaltyMsat + s.cltvPenaltyPerBlockMsat * edge.policy.cltvExpiryDelta
  match (edge.capacitySat.map (· * 1000)).filter (0 < ·) with
  | none => penalty
  | some cap =>
    let usedPpm := min (edge.amountMsat * 1000000) (2 ^ 64 - 1) / cap
    penalty + usedPpm * usedPpm / 1000

structure NodeState where
  /-- Amount that must arrive at this node. -/
  amount : Msat
  cltv : Nat
  /-- Total cost (amount and penalties) for ordering. -/
  cost : Nat
  /-- Next hop toward the payee. -/
  next : Option RouteHop
  hopsToPayee : Nat
  deriving DecidableEq

/-! ## Edges -/

def hintEdge (hop : RouteHintHop) : Edge where
  shortChannelId := hop.shortChannelId
  source := hop.srcNodeId
  policy :=
    { timestamp := 0
      enabled := true
      cltvExpiryDelta := hop.cltvExpiryDelta
      htlcMinimumMsat := 0
      htlcMaximumMsat := 2 ^ 64 - 1
      feeBaseMsat := hop.feeBaseMsat
      feeProportionalMillionths := hop.feeProportionalMillionths
      maximum_lt := by decide }
  capacitySat := none

/-- The virtual edges of a hint path: each entry forwards toward the next one's node, the last to the
payee. -/
def hintPath (payee : PublicKey) : List RouteHintHop → List (PublicKey × Edge)
  | [] => []
  | hop :: rest => ((rest.head?.map (·.srcNodeId)).getD payee, hintEdge hop) :: hintPath payee rest

def hintEdges (params : RouteParams) : List (PublicKey × Edge) :=
  params.routeHints.flatMap (hintPath params.payee)

/-- The graph edges and hint edges into a node. -/
def edgesInto (graph : NetworkGraph) (params : RouteParams) (node : PublicKey) : List Edge :=
  graph.edgesInto node ++ ((hintEdges params).filter fun e => e.1 = node).map Prod.snd

/-- `first_hop_by_peer`: the last first hop of the list with this peer. -/
def firstHopTo (params : RouteParams) (peer : PublicKey) : Option FirstHop :=
  (params.firstHops.filter fun fh => fh.peer = peer).getLast?

/-- The state of the node an edge comes from, if the edge can carry the amount. -/
def candidate (scorer : PathScorer) (params : RouteParams) (node : PublicKey) (state : NodeState)
    (e : Edge) : Option NodeState :=
  if e.source = params.payee then none
  else if e.source = params.payer then none
  else
    let fee := e.policy.feeFor state.amount
    let amountIn := state.amount + fee
    if amountIn < e.policy.htlcMinimumMsat then none
    else if amountIn > e.policy.htlcMaximumMsat then none
    else if e.capacitySat.any fun cap => amountIn > cap * 1000 then none
    else
      let penalty := scorer ⟨e.shortChannelId, e.source, node, e.policy, e.capacitySat, amountIn⟩
      some
        { amount := amountIn
          cltv := state.cltv + e.policy.cltvExpiryDelta
          cost := saturatingAdd (saturatingAdd state.cost fee) penalty
          next := some ⟨node, e.shortChannelId, state.amount, state.cltv⟩
          hopsToPayee := state.hopsToPayee + 1 }

/-! ## The heap -/

/-- `x` comes out of the heap before `y`: the lower cost, and among equals the higher key. -/
def before (x y : Nat × PublicKey) : Bool :=
  x.1 < y.1 || (x.1 = y.1 && y.2.serialize < x.2.serialize)

/-- The entry of `e :: rest` that comes out first. -/
def top (e : Nat × PublicKey) (rest : List (Nat × PublicKey)) : Nat × PublicKey :=
  rest.foldl (fun t e => if before e t then e else t) e

def pop : List (Nat × PublicKey) → Option ((Nat × PublicKey) × List (Nat × PublicKey))
  | [] => none
  | e :: rest => some (top e rest, (e :: rest).erase (top e rest))

theorem top_mem (e : Nat × PublicKey) (rest : List (Nat × PublicKey)) : top e rest ∈ e :: rest := by
  induction rest generalizing e with
  | nil => exact List.mem_singleton_self _
  | cons e' rest ih =>
    have htop : top e (e' :: rest) = top (if before e' e then e' else e) rest := rfl
    rw [htop]
    rcases List.mem_cons.1 (ih (if before e' e then e' else e)) with h | h
    · rw [h]
      split
      · exact List.mem_cons_of_mem _ List.mem_cons_self
      · exact List.mem_cons_self
    · exact List.mem_cons_of_mem _ (List.mem_cons_of_mem _ h)

theorem pop_perm {q q' : List (Nat × PublicKey)} {e : Nat × PublicKey} (h : pop q = some (e, q')) :
    q.Perm (e :: q') := by
  cases q with
  | nil => cases h
  | cons e₀ rest =>
    obtain ⟨rfl, rfl⟩ := Prod.mk.inj (Option.some.inj h)
    exact List.perm_cons_erase (top_mem e₀ rest)

/-! ## The search -/

/-- The states found and the heap. Every node in the heap has a state. -/
structure Search where
  best : Table PublicKey NodeState
  heap : List (Nat × PublicKey)
  known : ∀ e ∈ heap, (best.lookup e.2).isSome

namespace Search

theorem isSome_insert {best : Table PublicKey NodeState} {node v : PublicKey} {state : NodeState}
    (h : (best.lookup v).isSome) : ((best.insert node state).lookup v).isSome := by
  by_cases hv : v = node
  · rw [hv, AList.lookup_insert]
    rfl
  · rwa [AList.lookup_insert_ne hv]

/-- Record the state of a node. -/
def insert (s : Search) (node : PublicKey) (state : NodeState) : Search :=
  ⟨s.best.insert node state, s.heap, fun e he => isSome_insert (s.known e he)⟩

/-- Record the state of a node and push it. -/
def push (s : Search) (node : PublicKey) (state : NodeState) : Search where
  best := s.best.insert node state
  heap := (state.cost, node) :: s.heap
  known e he := by
    rcases List.mem_cons.1 he with rfl | he
    · rw [AList.lookup_insert]
      rfl
    · exact isSome_insert (s.known e he)

section
variable {s : Search} {cost : Nat} {node : PublicKey} {rest : List (Nat × PublicKey)}

theorem known_top (h : pop s.heap = some ((cost, node), rest)) : (s.best.lookup node).isSome :=
  s.known (cost, node) ((pop_perm h).mem_iff.2 List.mem_cons_self)

theorem known_rest (h : pop s.heap = some ((cost, node), rest)) :
    ∀ e ∈ rest, (s.best.lookup e.2).isSome :=
  fun e he => s.known e ((pop_perm h).mem_iff.2 (List.mem_cons_of_mem _ he))

end

/-- `best.get(&node).map(|s| cost < s.cost).unwrap_or(true)`. -/
def better (s : Search) (node : PublicKey) (cost : Nat) : Bool :=
  (s.best.lookup node).all fun state => cost < state.cost

end Search

variable (graph : NetworkGraph) (scorer : PathScorer) (params : RouteParams)

/-- Start at `node` if it is one of our direct peers. -/
def startHere (s : Search) (node : PublicKey) (state : NodeState) : Search :=
  match firstHopTo params node with
  | none => s
  | some fh =>
    if fh.availableMsat ≥ state.amount then
      -- A cheaper path through another peer may still be in the heap.
      if s.better params.payer state.cost then
        s.insert params.payer
          { amount := state.amount
            cltv := state.cltv
            cost := state.cost
            next := some ⟨node, fh.shortChannelId, state.amount, state.cltv⟩
            hopsToPayee := state.hopsToPayee + 1 }
      else s
    else s

def relax (node : PublicKey) (state : NodeState) (s : Search) (e : Edge) : Search :=
  match candidate scorer params node state e with
  | none => s
  | some state' => if s.better e.source state'.cost then s.push e.source state' else s

def visit (s : Search) (cost : Nat) (node : PublicKey) (state : NodeState) : Search :=
  -- A stale heap entry.
  if state.cost < cost then s
  else if state.hopsToPayee ≥ params.maxHops then s
  else (edgesInto graph params node).foldl (relax scorer params node state)
    (startHere params s node state)

/-- The search loop. -/
def search : Nat → Search → Search
  | 0, s => s
  | fuel + 1, s =>
    match h : pop s.heap with
    | none => s
    | some ((cost, node), rest) =>
      have hnode := Search.known_top h
      let popped : Search := ⟨s.best, rest, Search.known_rest h⟩
      search fuel (visit graph scorer params popped cost node ((s.best.lookup node).get hnode))

def payeeState : NodeState := ⟨params.amountMsat, params.finalCltvExpiry, params.amountMsat, none, 0⟩

def start : Search where
  best := AList.insert params.payee (payeeState params) ∅
  heap := [(params.amountMsat, params.payee)]
  known e he := by
    rw [List.mem_singleton.1 he, AList.lookup_insert]
    rfl

/-- Walk payer to payee; `n` is how many more hops may follow. -/
def walk (best : Table PublicKey NodeState) : Nat → Option RouteHop →
    Except RouteError (List RouteHop)
  | _, none => .ok []
  | 0, some hop => if hop.nodeId = params.payee then .ok [hop] else .error .limitExceeded
  | n + 1, some hop =>
    if hop.nodeId = params.payee then .ok [hop]
    else (hop :: ·) <$> walk best n ((best.lookup hop.nodeId).bind (·.next))

/-- As many entries as the heap can ever get. -/
def fuel : Nat := 1 + graph.size + (hintEdges params).length

/-- Find the cheapest route. -/
def findRoute : Except RouteError Route :=
  let best := (search graph scorer params (fuel graph params) (start params)).best
  match best.lookup params.payer with
  | none => .error .noPath
  | some payerState => do
    let hops ← walk params best params.maxHops payerState.next
    if hops.getLast?.map (·.nodeId) ≠ some params.payee then .error .noPath
    else .ok ⟨hops, payerState.amount, payerState.cltv⟩

end Router

/-- An environment whose graph is the network graph, with its router. -/
def Env.overGraph (E : Env) (nodePayload : Wire.NodeAnnouncement → List UInt8)
    (scorer : Router.PathScorer) : Env :=
  let payloads := ⟨E.announcementPayload, E.updatePayload, nodePayload⟩
  { E with
    Graph := NetworkGraph
    newGraph := NetworkGraph.new
    applyChannelAnnouncement := NetworkGraph.applyChannelAnnouncement E.C payloads
    applyChannelUpdate := NetworkGraph.applyChannelUpdate E.C payloads
    applyNodeAnnouncement := NetworkGraph.applyNodeAnnouncement E.C payloads
    findRoute := fun graph params => Router.findRoute graph scorer params }

/-! ## A concrete graph -/

namespace Demo

def vertex (n : Nat) : PublicKey := ⟨Crypto.Transparent.ofNat 33 n⟩

/-- A policy with this base fee, proportional fee and expiry delta. -/
def policy (base ppm cltv : Nat) : DirectionalInfo :=
  ⟨100, true, cltv, 1, 10000000000, base, ppm, by decide⟩

/-- Add a channel with the same policy both ways. -/
def link (scid i j : Nat) (p : DirectionalInfo) (g : NetworkGraph) : NetworkGraph :=
  { g with
    channels := g.channels.insert scid ⟨vertex i, vertex j, some 10000000, some p, some p⟩
    nodes := [vertex i, vertex j].foldl (NetworkGraph.addToNode scid) g.nodes }

/-- From node 0 to node 3 over the cheap node 1 or the dear node 2. -/
def diamond : NetworkGraph :=
  link 4 2 3 (policy 50000 5000 40) (link 3 0 2 (policy 0 0 6)
    (link 2 1 3 (policy 1000 100 40) (link 1 0 1 (policy 0 0 6) (.new .regtest))))

def diamondParams (firstHops : List FirstHop) : RouteParams where
  payer := vertex 0
  payee := vertex 3
  amountMsat := 1000000
  finalCltvExpiry := 800018
  firstHops := firstHops
  routeHints := []
  maxHops := 20

def wide : List FirstHop := [⟨vertex 1, 1, 50000000⟩, ⟨vertex 2, 3, 50000000⟩]

end Demo
