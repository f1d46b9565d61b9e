import Keraunos.Router.Proof.Valid

/-!
# Routes are optimal

Without penalties the cost of a state is its amount. What arrives at a node rises with what it has
to forward, so the states a search settles are the least (`findRoute_optimal`).
-/

open Bitcoin

namespace Router

def zeroPenalty : PathScorer := fun _ => 0

/-- The nodes of the graph and the hints, and the payee. -/
def nodes (graph : NetworkGraph) (params : RouteParams) : Finset PublicKey :=
  (params.payee :: graph.channels.entries.flatMap (fun c => [c.2.node1, c.2.node2]) ++
    (hintEdges params).map (·.2.source)).toFinset

/-- A path from `node` to the payee whose edges carry what goes over them; `amount` arrives at
`node`. -/
inductive Path (graph : NetworkGraph) (params : RouteParams) : PublicKey → Msat → Prop
  | payee : Path graph params params.payee params.amountMsat
  | edge {node : PublicKey} {amount : Msat} {e : Edge} : Path graph params node amount →
      e ∈ edgesInto graph params node → e.source ≠ params.payee → e.source ≠ params.payer →
      e.Carries (amount + e.policy.feeFor amount) →
      Path graph params e.source (amount + e.policy.feeFor amount)

/-- Some first hop leads to a path, and has the amount. -/
def Payable (graph : NetworkGraph) (params : RouteParams) (amount : Msat) : Prop :=
  ∃ fh ∈ params.firstHops, Path graph params fh.peer amount ∧ amount ≤ fh.availableMsat

variable {graph : NetworkGraph} {params : RouteParams}

/-- The expansions without the limit on the hops. -/
def unlimited (graph : NetworkGraph) (params : RouteParams) (node : PublicKey) (state : NodeState) :
    List (PublicKey × NodeState) :=
  (edgesInto graph params node).filterMap fun e =>
    (candidate zeroPenalty params node state e).map (e.source, ·)

theorem mem_unlimited {x : PublicKey × NodeState} {node : PublicKey} {state : NodeState} :
    x ∈ unlimited graph params node state ↔ ∃ e ∈ edgesInto graph params node,
      Admits params state e ∧ x = (e.source, forwards zeroPenalty node state e) := by
  simp only [unlimited, List.mem_filterMap, Option.map_eq_some_iff, candidate_eq_some]
  constructor
  · rintro ⟨e, he, st, ⟨hadmits, rfl⟩, rfl⟩
    exact ⟨e, he, hadmits, rfl⟩
  · rintro ⟨e, he, hadmits, rfl⟩
    exact ⟨e, he, _, ⟨hadmits, rfl⟩, rfl⟩

theorem expansions_subset (node : PublicKey) (state : NodeState) :
    expansions graph zeroPenalty params node state ⊆ unlimited graph params node state := by
  intro x hx
  obtain ⟨-, hx⟩ := mem_expansions.1 hx
  exact mem_unlimited.2 hx

abbrev Derives (graph : NetworkGraph) (params : RouteParams) : PublicKey → NodeState → Prop :=
  BestFirst.Derives (unlimited graph params) (params.payee, payeeState params)

/-! ## Amounts -/

theorem saturatingAdd_exact {a b : Nat} (h : a + b < 2 ^ 64) :
    saturatingAdd (saturatingAdd a b) 0 = a + b := by
  unfold saturatingAdd
  omega

/-- Without penalties the cost is the amount. -/
theorem forwards_cost {node : PublicKey} {state : NodeState} {e : Edge} (hadmits : Admits params state e)
    (hcost : state.cost = state.amount) : (forwards zeroPenalty node state e).cost =
      state.amount + e.policy.feeFor state.amount := by
  show saturatingAdd (saturatingAdd state.cost _) 0 = _
  rw [hcost]
  exact saturatingAdd_exact hadmits.amount_lt

theorem Derives.cost {node : PublicKey} {state : NodeState} (h : Derives graph params node state) :
    state.cost = state.amount ∧ params.amountMsat ≤ state.amount := by
  induction h with
  | start => exact ⟨rfl, le_rfl⟩
  | step _ hx ih =>
    obtain ⟨e, -, hadmits, heq⟩ := mem_unlimited.1 hx
    obtain ⟨rfl, rfl⟩ := Prod.mk.inj heq
    exact ⟨forwards_cost hadmits ih.1, ih.2.trans (Nat.le_add_right _ _)⟩

/-- What the search derives are the paths. -/
theorem Derives.path {node : PublicKey} {state : NodeState} (h : Derives graph params node state) :
    Path graph params node state.amount := by
  induction h with
  | start => exact .payee
  | step _ hx ih =>
    obtain ⟨e, he, hadmits, heq⟩ := mem_unlimited.1 hx
    obtain ⟨rfl, rfl⟩ := Prod.mk.inj heq
    exact ih.edge he hadmits.payee hadmits.payer hadmits.carries

theorem Path.derives {node : PublicKey} {amount : Msat} (h : Path graph params node amount) :
    ∃ state, Derives graph params node state ∧ state.amount = amount := by
  induction h with
  | payee => exact ⟨_, .start, rfl⟩
  | edge _ he hpayee hpayer hcarries ih =>
    obtain ⟨state, hstate, rfl⟩ := ih
    exact ⟨_, hstate.step (mem_unlimited.2 ⟨_, he, ⟨hpayee, hpayer, hcarries⟩, rfl⟩), rfl⟩

/-! ## The limit on the hops -/

theorem source_mem_nodes {v : PublicKey} {e : Edge} (he : e ∈ edgesInto graph params v) :
    e.source ∈ nodes graph params := by
  rw [nodes, List.mem_toFinset]
  rcases List.mem_append.1 he with h | h
  · refine List.mem_append_left _ (List.mem_cons_of_mem _ ?_)
    obtain ⟨chan, hchan, hedge⟩ := NetworkGraph.mem_edgesInto h
    refine List.mem_flatMap.2 ⟨⟨e.shortChannelId, chan⟩, List.of_mem_dlookup hchan, ?_⟩
    rcases hedge.direction with ⟨-, hsource, -⟩ | ⟨-, hsource, -⟩
    · rw [hsource]
      exact List.mem_cons_of_mem _ List.mem_cons_self
    · rw [hsource]
      exact List.mem_cons_self
  · obtain ⟨e', he', rfl⟩ := List.mem_map.1 h
    exact List.mem_append_right _ (List.mem_map.2 ⟨e', (List.mem_filter.1 he').1, rfl⟩)

theorem Derives.mem_nodes {node : PublicKey} {state : NodeState} (h : Derives graph params node state) :
    node ∈ nodes graph params := by
  cases h with
  | start => exact List.mem_toFinset.2 List.mem_cons_self
  | step _ hx =>
    obtain ⟨e, he, -, heq⟩ := mem_unlimited.1 hx
    rw [(Prod.mk.inj heq).1]
    exact source_mem_nodes he

/-- With as many hops as nodes, the limit is never reached. -/
theorem Tracks.hops_lt {s : Search} {settled : List (PublicKey × NodeState)}
    (ht : Tracks graph zeroPenalty params s settled)
    (hhops : (nodes graph params).card ≤ params.maxHops) :
    ∀ x ∈ settled, x.2.hopsToPayee < params.maxHops := by
  intro x hx
  have hrank := ht.sound.grown.rank_lt NodeState.hopsToPayee rfl (fun v l y hy => by
    obtain ⟨-, e, -, -, rfl⟩ := mem_expansions.1 hy
    exact le_rfl) x hx
  have hsub : (settled.map Prod.fst).toFinset ⊆ nodes graph params := by
    intro v hv
    obtain ⟨y, hy, rfl⟩ := List.mem_map.1 (List.mem_toFinset.1 hv)
    exact Derives.mem_nodes ((ht.sound.grown.derives y hy).mono expansions_subset)
  have hcard := Finset.card_le_card hsub
  rw [List.toFinset_card_of_nodup ht.sound.once, List.length_map] at hcard
  omega

/-! ## The least amount -/

theorem edgesInto_minimum {v : PublicKey} {e : Edge}
    (hmin : ∀ v, ∀ e ∈ graph.edgesInto v, e.policy.htlcMinimumMsat ≤ params.amountMsat)
    (he : e ∈ edgesInto graph params v) : e.policy.htlcMinimumMsat ≤ params.amountMsat := by
  rcases List.mem_append.1 he with h | h
  · exact hmin v e h
  · obtain ⟨e', he', rfl⟩ := List.mem_map.1 h
    obtain ⟨-, -, hop, -, hedge⟩ := mem_hintEdges (List.mem_filter.1 he').1
    rw [hedge]
    exact Nat.zero_le _

/-- The settled state of a node needs no more than any path from it. -/
theorem least_amount (hne : params.payer ≠ params.payee)
    (hhops : (nodes graph params).card ≤ params.maxHops)
    (hmin : ∀ v, ∀ e ∈ graph.edgesInto v, e.policy.htlcMinimumMsat ≤ params.amountMsat)
    {node : PublicKey} {amount : Msat} (hpath : Path graph params node amount) :
    ∃ state, (node, state) ∈ settles graph zeroPenalty params ∧ state.amount ≤ amount := by
  obtain ⟨ht, hempty, hpayee⟩ := search_spec graph zeroPenalty hne
  have hderives : ∀ x ∈ settles graph zeroPenalty params, Derives graph params x.1 x.2 :=
    fun x hx => (ht.sound.grown.derives x hx).mono expansions_subset
  have hmono : ∀ w m m', (w, m) ∈ settles graph zeroPenalty params → Derives graph params w m' →
      m.cost ≤ m'.cost → ∀ x ∈ unlimited graph params w m',
      ∃ l, (x.1, l) ∈ expansions graph zeroPenalty params w m ∧ l.cost ≤ x.2.cost := by
    intro w m m' hm hm' hcost x hx
    obtain ⟨e, he, hadmits, rfl⟩ := mem_unlimited.1 hx
    obtain ⟨hmcost, hmamount⟩ := (hderives _ hm).cost
    obtain ⟨hmcost', -⟩ := hm'.cost
    have hamount : m.amount ≤ m'.amount := by
      rw [← hmcost, ← hmcost']
      exact hcost
    have hin : m.amount + e.policy.feeFor m.amount ≤ m'.amount + e.policy.feeFor m'.amount :=
      Nat.add_le_add hamount (feeFor_mono _ hamount)
    have hadmits' : Admits params m e := ⟨hadmits.payee, hadmits.payer, hadmits.carries.anti hin
      ((edgesInto_minimum hmin he).trans (hmamount.trans (Nat.le_add_right _ _)))⟩
    refine ⟨_, mem_expansions.2 ⟨ht.hops_lt hhops _ hm, e, he, hadmits', rfl⟩, ?_⟩
    rw [forwards_cost hadmits' hmcost, forwards_cost hadmits hmcost']
    exact hin
  obtain ⟨state, hstate, rfl⟩ := hpath.derives
  obtain ⟨best, hbest, hle⟩ := ht.sound.least hempty ht.closed ⟨_, hpayee, le_rfl⟩ hmono hstate
  have hset := (ht.sound.mem_iff hempty).2 hbest
  refine ⟨best, hset, ?_⟩
  rw [← (hderives _ hset).cost.1, ← hstate.cost.1]
  exact hle

/-! ## The route -/

theorem firstHopTo_eq (hone : (params.firstHops.map (·.peer)).Nodup) {fh : FirstHop}
    (hfh : fh ∈ params.firstHops) : firstHopTo params fh.peer = some fh := by
  have hfound : ∃ fh', firstHopTo params fh.peer = some fh' := by
    have hmem : fh ∈ params.firstHops.filter fun fh' => fh'.peer = fh.peer :=
      List.mem_filter.2 ⟨hfh, decide_eq_true rfl⟩
    exact Option.isSome_iff_exists.1 (List.getLast?_isSome.2 (List.ne_nil_of_mem hmem))
  obtain ⟨fh', hfh'⟩ := hfound
  obtain ⟨hmem, hpeer⟩ := firstHopTo_mem hfh'
  rw [hfh', List.inj_on_of_nodup_map hone hmem hfh hpeer]

/-- Without penalties, with one first hop for a peer at most, and with a limit on the hops that does
not cut any path, the router finds a route whenever there is one, and it needs the least amount. -/
theorem findRoute_optimal (hne : params.payer ≠ params.payee)
    (hone : (params.firstHops.map (·.peer)).Nodup)
    (hhops : (nodes graph params).card ≤ params.maxHops)
    (hmin : ∀ v, ∀ e ∈ graph.edgesInto v, e.policy.htlcMinimumMsat ≤ params.amountMsat) :
    (∀ amount, Payable graph params amount → ∃ route,
      findRoute graph zeroPenalty params = .ok route ∧ route.firstHopAmountMsat ≤ amount) ∧
    ∀ route, findRoute graph zeroPenalty params = .ok route →
      Payable graph params route.firstHopAmountMsat := by
  obtain ⟨ht, -, -⟩ := search_spec graph zeroPenalty hne
  have hderives : ∀ x ∈ settles graph zeroPenalty params, Derives graph params x.1 x.2 :=
    fun x hx => (ht.sound.grown.derives x hx).mono expansions_subset
  constructor
  · rintro amount ⟨fh, hfh, hpath, hroom⟩
    obtain ⟨state, hset, hle⟩ := least_amount hne hhops hmin hpath
    have hstarts : starts params (fh.peer, state) = true := by
      rw [starts, decide_eq_true (ht.hops_lt hhops _ hset), firstHopTo_eq hone hfh]
      exact decide_eq_true (hle.trans hroom)
    cases hfound : (settles graph zeroPenalty params).find? (starts params) with
    | none =>
      have hno := List.find?_eq_none.1 hfound _ hset
      exact absurd hstarts hno
    | some x =>
      obtain ⟨first, hops, hroute, -⟩ := findRoute_some hne hfound
      refine ⟨_, hroute, le_trans ?_ hle⟩
      have hcost := ht.sound.find_le hfound hset hstarts
      rw [(hderives _ hset).cost.1, (hderives _ (List.mem_of_find?_eq_some hfound)).cost.1] at hcost
      exact hcost
  · intro route hroute
    cases hfound : (settles graph zeroPenalty params).find? (starts params) with
    | none =>
      rw [findRoute_none hne hfound] at hroute
      cases hroute
    | some x =>
      obtain ⟨first, hops, heq, -⟩ := findRoute_some hne hfound
      rw [heq] at hroute
      obtain rfl := Except.ok.inj hroute
      have hstarts := List.find?_some hfound
      rw [starts, Bool.and_eq_true] at hstarts
      obtain ⟨fh, hfh, hroom⟩ := (Option.any_eq_true _ _).1 hstarts.2
      obtain ⟨hmem, hpeer⟩ := firstHopTo_mem hfh
      refine ⟨fh, hmem, ?_, of_decide_eq_true hroom⟩
      rw [hpeer]
      exact (hderives x (List.mem_of_find?_eq_some hfound)).path

theorem edgesInto_policy {v : PublicKey} {e : Edge} (he : e ∈ graph.edgesInto v) :
    ∃ c ∈ graph.channels.entries, e.policy ∈ c.2.oneToTwo.toList ++ c.2.twoToOne.toList := by
  obtain ⟨chan, hchan, hedge⟩ := NetworkGraph.mem_edgesInto he
  refine ⟨⟨e.shortChannelId, chan⟩, List.of_mem_dlookup hchan, ?_⟩
  rw [List.mem_append, Option.mem_toList, Option.mem_toList]
  rcases hedge.direction with ⟨-, -, hpolicy⟩ | ⟨-, -, hpolicy⟩
  · exact .inr hpolicy
  · exact .inl hpolicy

/-- The least amount from node 0 to node 3 of the diamond is over node 1. -/
theorem findRoute_optimal_diamond :
    ∃ route, findRoute Demo.diamond zeroPenalty (Demo.diamondParams Demo.wide) = .ok route ∧
      route.firstHopAmountMsat = 1001100 ∧
      ∀ amount, Payable Demo.diamond (Demo.diamondParams Demo.wide) amount → 1001100 ≤ amount := by
  have hfound : ((findRoute Demo.diamond zeroPenalty
      (Demo.diamondParams Demo.wide)).toOption.map (·.firstHopAmountMsat)) = some 1001100 := by
    decide +kernel
  obtain ⟨route, hroute, hamount⟩ := Option.map_eq_some_iff.1 hfound
  have hroute := toOption_eq_some.1 hroute
  have hmin : ∀ v, ∀ e ∈ Demo.diamond.edgesInto v,
      e.policy.htlcMinimumMsat ≤ (Demo.diamondParams Demo.wide).amountMsat := by
    intro v e he
    obtain ⟨c, hc, hp⟩ := edgesInto_policy he
    have hall : ∀ c ∈ Demo.diamond.channels.entries,
        ∀ p ∈ c.2.oneToTwo.toList ++ c.2.twoToOne.toList, p.htlcMinimumMsat ≤ 1000000 := by
      decide +kernel
    exact hall c hc _ hp
  have hne : (Demo.diamondParams Demo.wide).payer ≠ (Demo.diamondParams Demo.wide).payee := by
    decide +kernel
  obtain ⟨hleast, -⟩ := findRoute_optimal hne (by decide +kernel) (by decide +kernel) hmin
  refine ⟨route, hroute, hamount, fun amount hpayable => ?_⟩
  obtain ⟨route', hroute', hle⟩ := hleast amount hpayable
  rw [hroute] at hroute'
  obtain rfl := Except.ok.inj hroute'
  exact hamount ▸ hle

end Router
