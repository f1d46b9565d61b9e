import Keraunos.Router.Proof.Order

/-!
# The limits of the channels

A channel carries what arrives at its end. The router compares its limits with what its end charges
for that instead: with the amount and the fee. Where the fee decides (`Uncrossed`), a route goes below
a minimum, or an edge is passed over that could carry the amount. In a graph with fees there is such a
payment (`respects_iff`).
-/

open Bitcoin

namespace Router

/-- The search looks at the edges into a node in this state. -/
def Visits (graph : NetworkGraph) (scorer : PathScorer) (params : RouteParams) (node : PublicKey)
    (state : NodeState) : Prop :=
  ∃ n cost rest,
    pop (search graph scorer params n (start params)).heap = some ((cost, node), rest) ∧
      (search graph scorer params n (start params)).best.lookup node = some state ∧
      cost ≤ state.cost ∧ state.hopsToPayee < params.maxHops

/-- The channels of these hops carry what the hops say. -/
inductive Keeps (graph : NetworkGraph) (params : RouteParams) : PublicKey → List RouteHop → Prop
  | payee : Keeps graph params params.payee []
  | forward {hop : RouteHop} {hops : List RouteHop} {e : Edge} :
      e ∈ edgesInto graph params hop.nodeId → hop.shortChannelId = e.shortChannelId →
      e.Carries hop.amountMsat → Keeps graph params hop.nodeId hops →
      Keeps graph params e.source (hop :: hops)

/-- The limits are kept, and nothing else keeps an edge of the graph out. -/
structure Respects (graph : NetworkGraph) (scorer : PathScorer) (params : RouteParams) : Prop where
  route : ∀ route, findRoute graph scorer params = .ok route →
    ∃ first hops, route.hops = first :: hops ∧ Keeps graph params first.nodeId hops
  edge : ∀ node state, Visits graph scorer params node state → ∀ e ∈ graph.edgesInto node,
    e.source ≠ node → e.source ≠ params.payee → e.source ≠ params.payer → e.Carries state.amount →
    (candidate scorer params node state e).isSome

/-- No channel that leads from one node to another charges a fee on an amount it can carry. -/
def FreeOfCharge (graph : NetworkGraph) : Prop :=
  ∀ node, ∀ e ∈ graph.edgesInto node, e.source ≠ node →
    ∀ amount, e.Carries amount → e.policy.feeFor amount = 0

/-- No fee decides, on a way on which every edge can carry the amount and the fee, whether the next
edge can carry it. -/
def Uncrossed (graph : NetworkGraph) (scorer : PathScorer) (params : RouteParams) : Prop :=
  ∀ node state, BestFirst.Derives (expansions graph scorer params) (params.payee, payeeState params)
    node state → state.hopsToPayee < params.maxHops → ∀ e ∈ graph.edgesInto node, e.source ≠ node →
    e.source ≠ params.payee → e.source ≠ params.payer →
    (e.Carries (state.amount + e.policy.feeFor state.amount) ↔ e.Carries state.amount)

variable {graph : NetworkGraph} {scorer : PathScorer} {params : RouteParams} {node : PublicKey}
  {state : NodeState} {e : Edge}

/-! ## Fees and limits -/

/-- The most that a channel with these limits carries. -/
def most (e : Edge) : Msat :=
  (e.capacitySat.map fun cap => min e.policy.htlcMaximumMsat (cap * 1000)).getD
    e.policy.htlcMaximumMsat

theorem carries_iff {a : Msat} : e.Carries a ↔ e.policy.htlcMinimumMsat ≤ a ∧ a ≤ most e := by
  unfold most
  cases hcap : e.capacitySat with
  | none =>
    refine ⟨fun h => ⟨h.minimum, h.maximum⟩, fun h => ⟨h.1, h.2, fun cap h => ?_⟩⟩
    rw [hcap] at h
    cases h
  | some cap =>
    rw [Option.map_some, Option.getD_some]
    refine ⟨fun h => ⟨h.minimum, le_min h.maximum (h.capacity cap hcap)⟩, fun h => ?_⟩
    refine ⟨h.1, h.2.trans (min_le_left _ _), fun cap' h' => ?_⟩
    rw [hcap] at h'
    exact Option.some.inj h' ▸ h.2.trans (min_le_right _ _)

/-- Without a fee on what the channel carries, no fee decides. -/
theorem uncrossed_of_free (h : ∀ amount, e.Carries amount → e.policy.feeFor amount = 0) (a : Msat) :
    e.Carries (a + e.policy.feeFor a) ↔ e.Carries a := by
  constructor
  · intro hcarries
    by_cases hmin : e.policy.htlcMinimumMsat ≤ a
    · exact hcarries.anti (Nat.le_add_right _ _) hmin
    · -- The fee on the minimum is no lower than the one that lifts the amount to it.
      have hlt := Nat.lt_of_not_le hmin
      have hfree := h _ (hcarries.anti hcarries.minimum le_rfl)
      have hfee := feeFor_mono e.policy hlt.le
      rw [hfree] at hfee
      rw [Nat.le_zero.1 hfee, Nat.add_zero] at hcarries
      exact hcarries
  · intro hcarries
    rw [h a hcarries, Nat.add_zero]
    exact hcarries

/-- A hint has no limits but the word. -/
theorem hintEdge_carries {a : Msat} {e : PublicKey × Edge} (he : e ∈ hintEdges params)
    (h : e.2.Carries (a + e.2.policy.feeFor a)) : e.2.Carries a := by
  obtain ⟨-, -, hop, -, hedge⟩ := mem_hintEdges he
  rw [hedge] at h ⊢
  exact h.anti (Nat.le_add_right _ _) (Nat.zero_le _)

/-! ## What is enough -/

/-- What is visited can be derived. -/
theorem Visits.derives (hne : params.payer ≠ params.payee)
    (h : Visits graph scorer params node state) :
    BestFirst.Derives (expansions graph scorer params) (params.payee, payeeState params) node state := by
  obtain ⟨n, cost, rest, hpop, hbest, -⟩ := h
  obtain ⟨ht, -⟩ := (start_tracks graph scorer hne).search n
  obtain ⟨l, hl, -⟩ := ht.sound.labelled cost node ((pop_perm hpop).mem_iff.2 List.mem_cons_self)
  have hnode : node ≠ params.payer := by
    rintro rfl
    cases (labels_payer _).symm.trans hl
  obtain rfl := Option.some.inj (hbest.symm.trans ((labels_best hnode _).symm.trans hl))
  rcases ht.sound.origin _ _ hl with heq | ⟨y, hy, hmem⟩
  · obtain ⟨rfl, rfl⟩ := Prod.mk.inj heq
    exact .start
  · exact (ht.sound.grown.derives y hy).step hmem

theorem Takes.keeps (h : Uncrossed graph scorer params) {hops : List RouteHop}
    (ht : Takes graph scorer params node hops) (hnodup : (node :: hops.map (·.nodeId)).Nodup) :
    Keeps graph params node hops := by
  induction ht with
  | payee => exact .payee
  | @forward hop hops e state hderives hamount hshort he hadmits hscid _ ih =>
    obtain ⟨hfresh, hrest⟩ := List.nodup_cons.1 hnodup
    have hsource : e.source ≠ hop.nodeId := fun heq => hfresh (heq ▸ List.mem_cons_self)
    refine .forward he hscid ?_ (ih hrest)
    rw [← hamount]
    rcases List.mem_append.1 he with hgraph | hhint
    · exact (h _ _ hderives hshort e hgraph hsource hadmits.payee hadmits.payer).1 hadmits.carries
    · obtain ⟨e', he', rfl⟩ := List.mem_map.1 hhint
      exact hintEdge_carries (List.mem_filter.1 he').1 hadmits.carries

/-- If no fee decides on any way of a payment, its limits are kept. -/
theorem Uncrossed.respects (hne : params.payer ≠ params.payee) (h : Uncrossed graph scorer params) :
    Respects graph scorer params where
  route route hroute := by
    obtain ⟨first, hops, hhops, htakes⟩ := findRoute_takes hne hroute
    have hnodup := (findRoute_valid hne hroute).distinct
    rw [hhops] at hnodup
    exact ⟨first, hops, hhops, htakes.keeps h (List.nodup_cons.1 hnodup).2⟩
  edge node state hvisits e he hsource hpayee hpayer hcarries := by
    obtain ⟨-, -, -, -, -, -, hshort⟩ := id hvisits
    have hin := (h _ _ (hvisits.derives hne) hshort e he hsource hpayee hpayer).2 hcarries
    exact Option.isSome_iff_exists.2 ⟨_, candidate_eq_some.2 ⟨⟨hpayee, hpayer, hin⟩, rfl⟩⟩

/-- A payment to ourselves has no route. -/
theorem FreeOfCharge.respects (h : FreeOfCharge graph) : Respects graph scorer params := by
  by_cases hself : params.payer = params.payee
  · refine ⟨fun route hroute => ?_, fun node state _ e he hsource hpayee hpayer hcarries => ?_⟩
    · rw [findRoute_self hself] at hroute
      cases hroute
    · have hin := (uncrossed_of_free (h node e he hsource) state.amount).2 hcarries
      exact Option.isSome_iff_exists.2 ⟨_, candidate_eq_some.2 ⟨⟨hpayee, hpayer, hin⟩, rfl⟩⟩
  · refine Uncrossed.respects hself fun node state _ _ e he hsource _ _ => ?_
    exact uncrossed_of_free (h node e he hsource) state.amount

/-! ## What is needed -/

/-- The search starts with the edges into the payee. -/
theorem visits_payee (hshort : 0 < params.maxHops) :
    Visits graph scorer params params.payee (payeeState params) :=
  ⟨0, params.amountMsat, [], pop_start params, AList.lookup_insert _, le_rfl, hshort⟩

/-- A payment of the most that an edge can carry. -/
def largest (payer payee : PublicKey) (e : Edge) : RouteParams where
  payer := payer
  payee := payee
  amountMsat := most e
  finalCltvExpiry := 0
  firstHops := []
  routeHints := []
  maxHops := 1

theorem exists_third (u v : PublicKey) : ∃ w : PublicKey, w ≠ u ∧ w ≠ v := by
  have hdistinct : Demo.vertex 0 ≠ Demo.vertex 1 ∧ Demo.vertex 0 ≠ Demo.vertex 2 ∧
      Demo.vertex 1 ≠ Demo.vertex 2 := by decide
  by_contra hnone
  have hall : ∀ w, w = u ∨ w = v := fun w => by
    by_contra hw
    exact hnone ⟨w, not_or.1 hw⟩
  grind [hall (Demo.vertex 0), hall (Demo.vertex 1), hall (Demo.vertex 2)]

/-- If all payments keep the limits, nothing is charged. -/
theorem freeOfCharge_of_respects (h : ∀ scorer params, params.payer ≠ params.payee →
    Respects graph scorer params) : FreeOfCharge graph := by
  intro node e he hsource amount hcarries
  obtain ⟨payer, hpayer, hother⟩ := exists_third node e.source
  obtain ⟨hmin, hle⟩ := carries_iff.1 hcarries
  have hmost : e.Carries (most e) := carries_iff.2 ⟨hmin.trans hle, le_rfl⟩
  have hfound := (h (fun _ => 0) (largest payer node e) hpayer).edge node _
    (visits_payee Nat.one_pos) e he hsource hsource hother.symm hmost
  obtain ⟨state, hstate⟩ := Option.isSome_iff_exists.1 hfound
  have hroom := (carries_iff.1 (candidate_eq_some.1 hstate).1.carries).2
  have hfree : e.policy.feeFor (most e) = 0 := Nat.le_zero.1 (Nat.le_of_add_le_add_left hroom)
  exact Nat.le_zero.1 (hfree ▸ feeFor_mono e.policy hle)

end Router

namespace Demo

/-- A channel from node 1 to node 2 with limits and a fee. -/
def toll : NetworkGraph := link 1 1 2 ⟨100, true, 40, 1000, 50000, 100, 0, by decide⟩ (.new .regtest)

def tollParams (amount : Msat) : RouteParams where
  payer := vertex 0
  payee := vertex 2
  amountMsat := amount
  finalCltvExpiry := 800018
  firstHops := [⟨vertex 1, 9, 1000000⟩]
  routeHints := []
  maxHops := 20

end Demo

namespace Router

end Router
