import Keraunos.Router.Proof.Search

/-!
# Routes are valid

A route is read back from the states the search left behind. Nodes keep the states they were settled
with, so these fit together: `Leads` describes what the payment does at each node.
-/

open Bitcoin

namespace Router

/-- Over these hops, the amount and expiry that arrive at `node` are forwarded to the payee. -/
inductive Leads (graph : NetworkGraph) (params : RouteParams) :
    PublicKey → Msat → Nat → List RouteHop → Prop
  | payee : Leads graph params params.payee params.amountMsat params.finalCltvExpiry []
  /-- The node keeps the fee and the expiry delta of its policy. -/
  | forward {hop : RouteHop} {hops : List RouteHop} {e : Edge} :
      e ∈ edgesInto graph params hop.nodeId → e.policy.enabled = true →
      hop.shortChannelId = e.shortChannelId →
      Leads graph params hop.nodeId hop.amountMsat hop.cltvExpiry hops →
      Leads graph params e.source (hop.amountMsat + e.policy.feeFor hop.amountMsat)
        (hop.cltvExpiry + e.policy.cltvExpiryDelta) (hop :: hops)

/-- A route for the payment. -/
structure Valid (graph : NetworkGraph) (params : RouteParams) (route : Route) : Prop where
  distinct : (params.payer :: route.hops.map (·.nodeId)).Nodup
  short : route.hops.length ≤ params.maxHops
  /-- It starts over a first hop that has the amount, and leads to the payee from there. -/
  leads : ∃ fh ∈ params.firstHops, route.firstHopAmountMsat ≤ fh.availableMsat ∧ ∃ hops,
    route.hops = ⟨fh.peer, fh.shortChannelId, route.firstHopAmountMsat, route.firstHopCltv⟩ :: hops ∧
      Leads graph params fh.peer route.firstHopAmountMsat route.firstHopCltv hops

/-- Every hop is over an edge that was admitted in a state that the search can reach its node in. -/
inductive Takes (graph : NetworkGraph) (scorer : PathScorer) (params : RouteParams) :
    PublicKey → List RouteHop → Prop
  | payee : Takes graph scorer params params.payee []
  | forward {hop : RouteHop} {hops : List RouteHop} {e : Edge} {state : NodeState} :
      BestFirst.Derives (expansions graph scorer params) (params.payee, payeeState params)
        hop.nodeId state →
      state.amount = hop.amountMsat → state.hopsToPayee < params.maxHops →
      e ∈ edgesInto graph params hop.nodeId → Admits params state e →
      hop.shortChannelId = e.shortChannelId → Takes graph scorer params hop.nodeId hops →
      Takes graph scorer params e.source (hop :: hops)

variable {graph : NetworkGraph} {scorer : PathScorer} {params : RouteParams}

/-- What is read back from a settled node. -/
structure ReadsBack (graph : NetworkGraph) (scorer : PathScorer) (params : RouteParams)
    (best : Table PublicKey NodeState) (xs : List (PublicKey × NodeState)) (x : PublicKey × NodeState)
    (hops : List RouteHop) : Prop where
  leads : Leads graph params x.1 x.2.amount x.2.cltv hops
  takes : Takes graph scorer params x.1 hops
  length : hops.length = x.2.hopsToPayee
  walk : ∀ n hop, x.2.hopsToPayee ≤ n → hop.nodeId = x.1 →
    walk params best n (some hop) = .ok (hop :: hops)
  /-- The hops lead over nodes that are closer to the payee. -/
  closer : ∀ hop ∈ hops, ∃ m, (hop.nodeId, m) ∈ xs ∧ m.hopsToPayee < x.2.hopsToPayee
  distinct : (x.1 :: hops.map (·.nodeId)).Nodup

theorem mem_hintPath {e : PublicKey × Edge} {payee : PublicKey} {path : List RouteHintHop}
    (h : e ∈ hintPath payee path) : ∃ hop ∈ path, e.2 = hintEdge hop := by
  induction path with
  | nil => cases h
  | cons hop rest ih =>
    rcases List.mem_cons.1 h with rfl | h
    · exact ⟨hop, List.mem_cons_self, rfl⟩
    · obtain ⟨hop', hmem, hedge⟩ := ih h
      exact ⟨hop', List.mem_cons_of_mem _ hmem, hedge⟩

/-- Every virtual edge is made of a hop of a hint. -/
theorem mem_hintEdges {e : PublicKey × Edge} (h : e ∈ hintEdges params) :
    ∃ path ∈ params.routeHints, ∃ hop ∈ path, e.2 = hintEdge hop := by
  obtain ⟨path, hpath, hin⟩ := List.mem_flatMap.1 h
  exact ⟨path, hpath, mem_hintPath hin⟩

theorem edgesInto_enabled {v : PublicKey} {e : Edge} (h : e ∈ edgesInto graph params v) :
    e.policy.enabled = true := by
  rcases List.mem_append.1 h with h | h
  · obtain ⟨_, -, hedge⟩ := NetworkGraph.mem_edgesInto h
    exact hedge.enabled
  · obtain ⟨e', he', rfl⟩ := List.mem_map.1 h
    obtain ⟨-, -, hop, -, hedge⟩ := mem_hintEdges (List.mem_filter.1 he').1
    rw [hedge]
    rfl

theorem readsBack_payee {best : Table PublicKey NodeState} {xs : List (PublicKey × NodeState)} :
    ReadsBack graph scorer params best xs (params.payee, payeeState params) [] where
  leads := .payee
  takes := .payee
  length := rfl
  walk n hop _ hhop := by
    cases n with
    | zero => exact if_pos hhop
    | succ n => exact if_pos hhop
  closer := fun _ => nofun
  distinct := List.nodup_singleton _

theorem ReadsBack.widen {best : Table PublicKey NodeState} {xs ys : List (PublicKey × NodeState)}
    {x : PublicKey × NodeState} {hops : List RouteHop} (h : ReadsBack graph scorer params best xs x hops)
    (hsub : xs ⊆ ys) : ReadsBack graph scorer params best ys x hops where
  leads := h.leads
  takes := h.takes
  length := h.length
  walk := h.walk
  closer hop hhop := by
    obtain ⟨m, hm, hlt⟩ := h.closer hop hhop
    exact ⟨m, hsub hm, hlt⟩
  distinct := h.distinct

theorem ReadsBack.forward {best : Table PublicKey NodeState} {xs : List (PublicKey × NodeState)}
    {w : PublicKey} {m : NodeState} {hops : List RouteHop} {e : Edge}
    (h : ReadsBack graph scorer params best xs (w, m) hops) (hm : (w, m) ∈ xs)
    (hkept : ∀ x ∈ xs, best.lookup x.1 = some x.2) (hshort : m.hopsToPayee < params.maxHops)
    (hderives : BestFirst.Derives (expansions graph scorer params) (params.payee, payeeState params) w m)
    (he : e ∈ edgesInto graph params w) (hadmits : Admits params m e)
    (hbest : best.lookup e.source = some (forwards scorer w m e)) :
    ReadsBack graph scorer params best xs (e.source, forwards scorer w m e)
      (⟨w, e.shortChannelId, m.amount, m.cltv⟩ :: hops) := by
  have hcloser : ∀ hop ∈ (⟨w, e.shortChannelId, m.amount, m.cltv⟩ :: hops : List RouteHop),
      ∃ m', (hop.nodeId, m') ∈ xs ∧ m'.hopsToPayee < m.hopsToPayee + 1 := by
    intro hop hhop
    rcases List.mem_cons.1 hhop with rfl | hhop
    · exact ⟨m, hm, Nat.lt_succ_self _⟩
    · obtain ⟨m', hm', hlt⟩ := h.closer hop hhop
      exact ⟨m', hm', Nat.lt_succ_of_lt hlt⟩
  have hleads := @Leads.forward graph params ⟨w, e.shortChannelId, m.amount, m.cltv⟩ hops e he
    (edgesInto_enabled he) rfl h.leads
  have htakes := @Takes.forward graph scorer params ⟨w, e.shortChannelId, m.amount, m.cltv⟩ hops e m
    hderives rfl hshort he hadmits rfl h.takes
  refine ⟨hleads, htakes, ?_, fun n hop hn hhop => ?_, hcloser, ?_⟩
  · exact congrArg (· + 1) h.length
  · cases n with
    | zero => exact absurd hn (Nat.not_succ_le_zero _)
    | succ n =>
      have hsource : hop.nodeId = e.source := hhop
      have hne : hop.nodeId ≠ params.payee := fun heq => hadmits.payee (hsource.symm.trans heq)
      have hrest := h.walk n ⟨w, e.shortChannelId, m.amount, m.cltv⟩ (Nat.le_of_succ_le_succ hn) rfl
      rw [Router.walk, if_neg hne, hsource, hbest]
      show (hop :: ·) <$> Router.walk params best n (some ⟨w, e.shortChannelId, m.amount, m.cltv⟩) = _
      rw [hrest]
      rfl
  · refine List.nodup_cons.2 ⟨fun hin => ?_, h.distinct⟩
    obtain ⟨hop, hhop, hsame⟩ := List.mem_map.1 hin
    obtain ⟨m', hm', hlt⟩ := hcloser hop hhop
    have hsource : hop.nodeId = e.source := hsame
    have hm'' := hkept _ hm'
    rw [hsource, hbest] at hm''
    obtain rfl : forwards scorer w m e = m' := Option.some.inj hm''
    exact absurd hlt (Nat.lt_irrefl _)

/-- Every settled node can be read back. -/
theorem Grown.readsBack {best : Table PublicKey NodeState} {xs : List (PublicKey × NodeState)}
    (h : BestFirst.Grown (expansions graph scorer params) (params.payee, payeeState params) xs)
    (hkept : ∀ x ∈ xs, best.lookup x.1 = some x.2) :
    ∀ x ∈ xs, ∃ hops, ReadsBack graph scorer params best xs x hops := by
  induction h with
  | nil => exact fun _ => nofun
  | @snoc xs x hxs hx ih =>
    have hold := ih fun y hy => hkept y (List.mem_append_left _ hy)
    have hlast : x ∈ xs ++ [x] := List.mem_append_right _ (List.mem_singleton_self _)
    intro y hy
    rcases List.mem_append.1 hy with hy | hy
    · obtain ⟨hops, hhops⟩ := hold y hy
      exact ⟨hops, hhops.widen (List.subset_append_left _ _)⟩
    · obtain rfl := List.mem_singleton.1 hy
      rcases hx with rfl | ⟨⟨w, m⟩, hw, hx⟩
      · exact ⟨[], readsBack_payee⟩
      · obtain ⟨hops, hhops⟩ := hold _ hw
        obtain ⟨hshort, e, he, hadmits, rfl⟩ := mem_expansions.1 hx
        have hback := hhops.widen (List.subset_append_left xs [(e.source, forwards scorer w m e)])
        exact ⟨_, hback.forward (List.mem_append_left _ hw) hkept hshort (hxs.derives _ hw) he hadmits
          (hkept _ hlast)⟩

theorem Leads.last {node : PublicKey} {amount : Msat} {cltv : Nat} {hops : List RouteHop}
    (h : Leads graph params node amount cltv hops) {hop : RouteHop} (hhop : hop.nodeId = node) :
    (hop :: hops).getLast?.map (·.nodeId) = some params.payee := by
  induction h generalizing hop with
  | payee => exact congrArg some hhop
  | forward _ _ _ _ ih =>
    rw [List.getLast?_cons_cons]
    exact ih rfl

/-! ## The route -/

theorem firstHopTo_mem {v : PublicKey} {fh : FirstHop} (h : firstHopTo params v = some fh) :
    fh ∈ params.firstHops ∧ fh.peer = v := by
  obtain ⟨hmem, hpeer⟩ := List.mem_filter.1 (List.mem_of_getLast? h)
  exact ⟨hmem, of_decide_eq_true hpeer⟩

theorem findRoute_none (hne : params.payer ≠ params.payee)
    (h : (settles graph scorer params).find? (starts params) = none) :
    findRoute graph scorer params = .error .noPath := by
  obtain ⟨htracks, -, -⟩ := search_spec graph scorer hne
  have hpayer := htracks.payer
  rw [h] at hpayer
  unfold findRoute
  dsimp only
  rw [hpayer]
  rfl

theorem findRoute_some (hne : params.payer ≠ params.payee) {x : PublicKey × NodeState}
    (h : (settles graph scorer params).find? (starts params) = some x) :
    ∃ first hops, findRoute graph scorer params = .ok ⟨first :: hops, x.2.amount, x.2.cltv⟩ ∧
      Valid graph params ⟨first :: hops, x.2.amount, x.2.cltv⟩ ∧
      Takes graph scorer params first.nodeId hops := by
  obtain ⟨htracks, -, -⟩ := search_spec graph scorer hne
  have hpayer := htracks.payer
  rw [h] at hpayer
  have hmem := List.mem_of_find?_eq_some h
  have hstarts := List.find?_some h
  rw [starts, Bool.and_eq_true, decide_eq_true_eq] at hstarts
  obtain ⟨hhops, hfirst⟩ := hstarts
  obtain ⟨fh, hfh, hroom⟩ := (Option.any_eq_true _ _).1 hfirst
  obtain ⟨hfhmem, hpeer⟩ := firstHopTo_mem hfh
  have hnotPayer : ∀ y ∈ settles graph scorer params, y.1 ≠ params.payer := by
    rintro ⟨v, l⟩ hy rfl
    cases (labels_payer _).symm.trans (htracks.sound.final _ _ hy)
  have hkept : ∀ y ∈ settles graph scorer params,
      (search graph scorer params (fuel graph params) (start params)).best.lookup y.1 = some y.2 := by
    intro y hy
    rw [← htracks.sound.final y.1 y.2 hy, labels_best (hnotPayer y hy)]
  obtain ⟨hops, hback⟩ := Grown.readsBack htracks.sound.grown hkept x hmem
  have hwalk := hback.walk params.maxHops ⟨x.1, fh.shortChannelId, x.2.amount, x.2.cltv⟩ hhops.le rfl
  refine ⟨⟨x.1, fh.shortChannelId, x.2.amount, x.2.cltv⟩, hops, ?_, ?_, hback.takes⟩
  · unfold findRoute
    dsimp only
    rw [hpayer]
    show (Router.walk params _ params.maxHops ((payerState params x).next) >>= _) = _
    rw [payerState, hfh, Option.map_some, hwalk]
    show (if _ then _ else _) = _
    rw [if_neg (not_not.2 (hback.leads.last rfl))]
  · refine ⟨List.nodup_cons.2 ⟨fun hin => ?_, hback.distinct⟩, ?_, fh, hfhmem, of_decide_eq_true hroom,
      hops, ?_, ?_⟩
    · rcases List.mem_cons.1 hin with heq | hin
      · exact hnotPayer x hmem heq.symm
      · obtain ⟨hop, hhop, heq⟩ := List.mem_map.1 hin
        obtain ⟨m, hm, -⟩ := hback.closer hop hhop
        exact hnotPayer _ hm heq
    · rw [List.length_cons, hback.length]
      exact hhops
    · rw [hpeer]
    · rw [hpeer]
      exact hback.leads

/-- A route that the router returns is valid. -/
theorem findRoute_valid (hne : params.payer ≠ params.payee) {route : Route}
    (h : findRoute graph scorer params = .ok route) : Valid graph params route := by
  cases hfound : (settles graph scorer params).find? (starts params) with
  | none =>
    rw [findRoute_none hne hfound] at h
    cases h
  | some x =>
    obtain ⟨first, hops, hroute, hvalid, -⟩ := findRoute_some hne hfound
    rw [hroute] at h
    exact Except.ok.inj h ▸ hvalid

/-- A route that the router returns was admitted edge by edge. -/
theorem findRoute_takes (hne : params.payer ≠ params.payee) {route : Route}
    (h : findRoute graph scorer params = .ok route) :
    ∃ first hops, route.hops = first :: hops ∧ Takes graph scorer params first.nodeId hops := by
  cases hfound : (settles graph scorer params).find? (starts params) with
  | none =>
    rw [findRoute_none hne hfound] at h
    cases h
  | some x =>
    obtain ⟨first, hops, hroute, -, htakes⟩ := findRoute_some hne hfound
    rw [hroute] at h
    exact Except.ok.inj h ▸ ⟨first, hops, rfl, htakes⟩

theorem toOption_eq_some {ε α : Type} {x : Except ε α} {a : α} : x.toOption = some a ↔ x = .ok a := by
  cases x with
  | error e => simp [Except.toOption]
  | ok b => simp [Except.toOption]

/-- The router takes the cheap node. -/
theorem findRoute_valid_diamond : ∃ route,
    findRoute Demo.diamond (DefaultScorer.penaltyMsat {}) (Demo.diamondParams Demo.wide) = .ok route ∧
      route.firstHopAmountMsat = 1001100 ∧ Valid Demo.diamond (Demo.diamondParams Demo.wide) route := by
  have hfound : ((findRoute Demo.diamond (DefaultScorer.penaltyMsat {})
      (Demo.diamondParams Demo.wide)).toOption.map (·.firstHopAmountMsat)) = some 1001100 := by
    decide +kernel
  obtain ⟨route, hroute, hamount⟩ := Option.map_eq_some_iff.1 hfound
  have hroute := toOption_eq_some.1 hroute
  exact ⟨route, hroute, hamount, findRoute_valid (by decide +kernel) hroute⟩

end Router
