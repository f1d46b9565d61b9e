import Keraunos.Lib.BestFirst
import Mathlib.Algebra.BigOperators.Ring.Finset
import Mathlib.Algebra.Order.BigOperators.Group.List
import Keraunos.Router.FindRoute

/-!
# The search of the router is a best-first search

Apart from the state of the payer, `search` is `BestFirst.run` with the expansions of the router
(`search_spec`); the state of the payer is made of the first settled node where a first hop leads
(`Starts`). The first hops do not matter for what is settled.
-/

open Bitcoin

/-- The edge can carry the amount. -/
structure Edge.Carries (e : Edge) (amount : Msat) : Prop where
  minimum : e.policy.htlcMinimumMsat ≤ amount
  maximum : amount ≤ e.policy.htlcMaximumMsat
  capacity : ∀ cap ∈ e.capacitySat, amount ≤ cap * 1000

/-- What carries an amount carries less, down to its minimum. -/
theorem Edge.Carries.anti {e : Edge} {a b : Msat} (h : e.Carries b) (hab : a ≤ b)
    (hmin : e.policy.htlcMinimumMsat ≤ a) : e.Carries a :=
  ⟨hmin, hab.trans h.maximum, fun cap hcap => hab.trans (h.capacity cap hcap)⟩

namespace Router

/-! ## The heap -/

theorem top_le {e : Nat × PublicKey} {rest : List (Nat × PublicKey)} :
    ∀ e' ∈ e :: rest, (top e rest).1 ≤ e'.1 := by
  induction rest generalizing e with
  | nil =>
    intro e' he'
    rw [List.mem_singleton.1 he']
    exact le_rfl
  | cons e₁ rest ih =>
    have htop : top e (e₁ :: rest) = top (if before e₁ e then e₁ else e) rest := rfl
    have hfirst : (if before e₁ e then e₁ else e).1 ≤ e.1 ∧
        (if before e₁ e then e₁ else e).1 ≤ e₁.1 := by
      split
      · next h =>
        simp only [before, Bool.or_eq_true, Bool.and_eq_true, decide_eq_true_eq] at h
        omega
      · next h =>
        simp only [before, Bool.or_eq_true, decide_eq_true_eq, not_or] at h
        omega
    rw [htop]
    intro e' he'
    have hhead := ih (e := if before e₁ e then e₁ else e) _ List.mem_cons_self
    rcases List.mem_cons.1 he' with rfl | he'
    · exact hhead.trans hfirst.1
    · rcases List.mem_cons.1 he' with rfl | he'
      · exact hhead.trans hfirst.2
      · exact ih _ (List.mem_cons_of_mem _ he')

theorem pops : BestFirst.Pops pop where
  none q h := by
    cases q with
    | nil => rfl
    | cons => cases h
  perm _ _ _ := pop_perm
  least q e q' h := by
    cases q with
    | nil => cases h
    | cons e₀ rest =>
      obtain ⟨rfl, rfl⟩ := Prod.mk.inj (Option.some.inj h)
      exact top_le

/-! ## Expansions -/

variable {graph : NetworkGraph} {scorer : PathScorer} {params : RouteParams} {node : PublicKey}
  {state state' : NodeState} {e : Edge} {s : Search}

/-- The state of a node that forwards over the edge. -/
def forwards (scorer : PathScorer) (node : PublicKey) (state : NodeState) (e : Edge) : NodeState where
  amount := state.amount + e.policy.feeFor state.amount
  cltv := state.cltv + e.policy.cltvExpiryDelta
  cost := saturatingAdd (saturatingAdd state.cost (e.policy.feeFor state.amount))
    (scorer ⟨e.shortChannelId, e.source, node, e.policy, e.capacitySat,
      state.amount + e.policy.feeFor state.amount⟩)
  next := some ⟨node, e.shortChannelId, state.amount, state.cltv⟩
  hopsToPayee := state.hopsToPayee + 1

/-- The edge leads away from the payee and the payer, and carries what arrives over it. -/
structure Admits (params : RouteParams) (state : NodeState) (e : Edge) : Prop where
  payee : e.source ≠ params.payee
  payer : e.source ≠ params.payer
  carries : e.Carries (state.amount + e.policy.feeFor state.amount)

theorem feeFor_mono (p : DirectionalInfo) {a b : Msat} (h : a ≤ b) : p.feeFor a ≤ p.feeFor b :=
  Nat.add_le_add_left (Nat.div_le_div_right (Nat.mul_le_mul_right _ h)) _

theorem candidate_eq_some : candidate scorer params node state e = some state' ↔
    Admits params state e ∧ forwards scorer node state e = state' := by
  constructor
  · intro h
    unfold candidate at h
    split at h
    · cases h
    · next hpayee =>
      split at h
      · cases h
      · next hpayer =>
        dsimp only at h
        split at h
        · cases h
        · next hmin =>
          split at h
          · cases h
          · next hmax =>
            split at h
            · cases h
            · next hcap =>
              refine ⟨⟨hpayee, hpayer, Nat.le_of_not_lt hmin, Nat.le_of_not_lt hmax, fun cap hc => ?_⟩,
                Option.some.inj h⟩
              rw [Option.mem_def.1 hc] at hcap
              simpa using hcap
  · rintro ⟨⟨hpayee, hpayer, hmin, hmax, hcap⟩, rfl⟩
    have hroom : (e.capacitySat.any fun cap =>
        state.amount + e.policy.feeFor state.amount > cap * 1000) = false := by
      cases hc : e.capacitySat with
      | none => rfl
      | some cap => simpa using hcap cap hc
    rw [candidate, if_neg hpayee, if_neg hpayer]
    dsimp only
    rw [if_neg (Nat.not_lt_of_le hmin), if_neg (Nat.not_lt_of_le hmax), hroom]
    rfl

/-- What the router finds when it visits a node. -/
def expansions (graph : NetworkGraph) (scorer : PathScorer) (params : RouteParams) (node : PublicKey)
    (state : NodeState) : List (PublicKey × NodeState) :=
  if state.hopsToPayee ≥ params.maxHops then []
  else (edgesInto graph params node).filterMap fun e =>
    (candidate scorer params node state e).map (e.source, ·)

theorem mem_expansions {x : PublicKey × NodeState} :
    x ∈ expansions graph scorer params node state ↔ state.hopsToPayee < params.maxHops ∧
      ∃ e ∈ edgesInto graph params node, Admits params state e ∧
        x = (e.source, forwards scorer node state e) := by
  unfold expansions
  split
  · next h => simp [Nat.not_lt_of_le h]
  · next h =>
    simp only [List.mem_filterMap, Option.map_eq_some_iff, candidate_eq_some]
    constructor
    · rintro ⟨e, he, st, ⟨hadmits, rfl⟩, rfl⟩
      exact ⟨Nat.lt_of_not_le h, e, he, hadmits, rfl⟩
    · rintro ⟨-, e, he, hadmits, rfl⟩
      exact ⟨e, he, _, ⟨hadmits, rfl⟩, rfl⟩

theorem length_expansions :
    (expansions graph scorer params node state).length ≤ (edgesInto graph params node).length := by
  unfold expansions
  split
  · exact Nat.zero_le _
  · exact List.length_filterMap_le _ _

/-! ## Costs -/

/-- The cost is a word, unless it is the amount that nothing was added to yet. -/
def CostFits (state : NodeState) : Prop := state.cost = state.amount ∨ state.cost < 2 ^ 64

theorem le_saturatingAdd {a b : Nat} (ha : a < 2 ^ 64) : a ≤ saturatingAdd a b := by
  unfold saturatingAdd
  omega

theorem saturatingAdd_lt (a b : Nat) : saturatingAdd a b < 2 ^ 64 := by
  unfold saturatingAdd
  omega

/-- What goes over an edge is a word. -/
theorem Admits.amount_lt (h : Admits params state e) :
    state.amount + e.policy.feeFor state.amount < 2 ^ 64 :=
  Nat.lt_of_le_of_lt h.carries.maximum e.policy.maximum_lt

/-- A node that forwards has no lower cost than the one it forwards to. -/
theorem Admits.grows (h : Admits params state e) (hfits : CostFits state) :
    state.cost ≤ (forwards scorer node state e).cost ∧ CostFits (forwards scorer node state e) := by
  have hword : state.cost < 2 ^ 64 := by
    rcases hfits with hcost | hcost
    · rw [hcost]
      exact Nat.lt_of_le_of_lt (Nat.le_add_right _ _) h.amount_lt
    · exact hcost
  refine ⟨(le_saturatingAdd hword).trans (le_saturatingAdd (saturatingAdd_lt _ _)), .inr ?_⟩
  exact saturatingAdd_lt _ _

theorem expansions_grow :
    BestFirst.Grows NodeState.cost (expansions graph scorer params) CostFits := by
  intro node state hfits x hx
  obtain ⟨-, e, -, hadmits, rfl⟩ := mem_expansions.1 hx
  exact hadmits.grows hfits

/-! ## The steps of the search -/

/-- The states of all nodes but the payer, and the heap. -/
def Search.labels (params : RouteParams) (s : Search) : BestFirst.Search PublicKey NodeState Nat :=
  ⟨fun v => if v = params.payer then none else s.best.lookup v, s.heap⟩

theorem labels_insert (s : Search) (state : NodeState) :
    (s.insert params.payer state).labels params = s.labels params := by
  refine congrArg (BestFirst.Search.mk · s.heap) (funext fun v => ?_)
  show (if v = params.payer then none else (s.best.insert params.payer state).lookup v) = _
  split
  · rfl
  · next hv => exact AList.lookup_insert_ne hv

theorem labels_push {v : PublicKey} (hv : v ≠ params.payer) (s : Search) (state : NodeState) :
    (s.push v state).labels params =
      ⟨Function.update (s.labels params).best v (some state), (state.cost, v) :: s.heap⟩ := by
  refine congrArg (BestFirst.Search.mk · _) (funext fun u => ?_)
  show (if u = params.payer then none else (s.best.insert v state).lookup u) = _
  by_cases huv : u = v
  · subst huv
    rw [Function.update_self, if_neg hv, AList.lookup_insert]
  · rw [Function.update_of_ne huv, AList.lookup_insert_ne huv]
    rfl

theorem labels_payer (s : Search) : (s.labels params).best params.payer = none := if_pos rfl

theorem labels_best {v : PublicKey} (hv : v ≠ params.payer) (s : Search) :
    (s.labels params).best v = s.best.lookup v := if_neg hv

theorem relax_labels : (relax scorer params node state s e).labels params =
    match (candidate scorer params node state e).map (e.source, ·) with
    | none => s.labels params
    | some x => BestFirst.offer NodeState.cost (s.labels params) x := by
  unfold relax
  cases hcand : candidate scorer params node state e with
  | none => rfl
  | some st =>
    have hsource := (candidate_eq_some.1 hcand).1.payer
    dsimp only [Option.map_some]
    rw [BestFirst.offer, labels_best hsource, Search.better]
    split
    · exact labels_push hsource s st
    · rfl

theorem relax_payer : (relax scorer params node state s e).best.lookup params.payer =
    s.best.lookup params.payer := by
  unfold relax
  cases hcand : candidate scorer params node state e with
  | none => rfl
  | some st =>
    dsimp only
    split
    · exact AList.lookup_insert_ne (candidate_eq_some.1 hcand).1.payer.symm
    · rfl

theorem relaxAll_labels (es : List Edge) :
    (es.foldl (relax scorer params node state) s).labels params =
      (es.filterMap fun e => (candidate scorer params node state e).map (e.source, ·)).foldl
        (BestFirst.offer NodeState.cost) (s.labels params) := by
  induction es generalizing s with
  | nil => rfl
  | cons e es ih =>
    rw [List.foldl_cons, ih, relax_labels, List.filterMap_cons]
    cases candidate scorer params node state e with
    | none => rfl
    | some st => rfl

theorem relaxAll_payer (es : List Edge) :
    (es.foldl (relax scorer params node state) s).best.lookup params.payer =
      s.best.lookup params.payer := by
  induction es generalizing s with
  | nil => rfl
  | cons e es ih => rw [List.foldl_cons, ih, relax_payer]

theorem startHere_labels :
    (startHere params s node state).labels params = s.labels params := by
  unfold startHere
  split
  · rfl
  · split
    · split
      · exact labels_insert s _
      · rfl
    · rfl

theorem visit_stale {cost : Nat} (h : state.cost < cost) :
    visit graph scorer params s cost node state = s := if_pos h

theorem visit_labels {cost : Nat} (h : ¬ state.cost < cost) :
    (visit graph scorer params s cost node state).labels params =
      BestFirst.expand NodeState.cost (expansions graph scorer params) (s.labels params) node state := by
  rw [visit, if_neg h, BestFirst.expand, expansions]
  split
  · rfl
  · rw [relaxAll_labels, startHere_labels]

/-! ## Where the payer can start -/

/-- The payer can start at the settled node. -/
def starts (params : RouteParams) (x : PublicKey × NodeState) : Bool :=
  x.2.hopsToPayee < params.maxHops &&
    (firstHopTo params x.1).any fun fh => fh.availableMsat ≥ x.2.amount

/-- The state of the payer that starts at a node. -/
def payerState (params : RouteParams) (x : PublicKey × NodeState) : NodeState where
  amount := x.2.amount
  cltv := x.2.cltv
  cost := x.2.cost
  next := (firstHopTo params x.1).map fun fh => ⟨x.1, fh.shortChannelId, x.2.amount, x.2.cltv⟩
  hopsToPayee := x.2.hopsToPayee + 1

theorem visit_payer {cost : Nat} (h : ¬ state.cost < cost) :
    (visit graph scorer params s cost node state).best.lookup params.payer =
      if starts params (node, state) && s.better params.payer state.cost then
        some (payerState params (node, state))
      else s.best.lookup params.payer := by
  rw [visit, if_neg h, starts]
  split
  · next hhops => simp [Nat.not_lt_of_le hhops]
  · next hhops =>
    rw [relaxAll_payer, decide_eq_true (Nat.lt_of_not_le hhops), Bool.true_and, startHere, payerState]
    cases hfirst : firstHopTo params node with
    | none => rfl
    | some fh =>
      simp only [Option.any_some, decide_eq_true_eq, Bool.and_eq_true, Option.map_some]
      split
      · next hroom =>
        split
        · next hbetter =>
          rw [if_pos ⟨hroom, hbetter⟩]
          exact AList.lookup_insert _
        · next hbetter => rw [if_neg fun hboth => hbetter hboth.2]
      · next hroom => rw [if_neg fun hboth => hroom hboth.1]

/-! ## The search -/

/-- What holds of the search when it has settled these nodes. -/
structure Tracks (graph : NetworkGraph) (scorer : PathScorer) (params : RouteParams) (s : Search)
    (settled : List (PublicKey × NodeState)) : Prop where
  sound : BestFirst.Sound NodeState.cost (expansions graph scorer params) CostFits
    (params.payee, payeeState params) (s.labels params) settled
  closed : BestFirst.Closed NodeState.cost (expansions graph scorer params) (s.labels params) settled
  payer : s.best.lookup params.payer = (settled.find? (starts params)).map (payerState params)

theorem search_none {n : Nat} (h : pop s.heap = none) : search graph scorer params (n + 1) s = s := by
  rw [search]
  split
  · rfl
  · next heq =>
    rw [h] at heq
    cases heq

variable (graph scorer params) in
theorem search_some (n : Nat) {cost : Nat} {rest : List (Nat × PublicKey)}
    (h : pop s.heap = some ((cost, node), rest)) (hstate : s.best.lookup node = some state) :
    ∃ popped : Search, popped.best = s.best ∧ popped.heap = rest ∧
      search graph scorer params (n + 1) s =
        search graph scorer params n (visit graph scorer params popped cost node state) := by
  rw [search]
  split
  · next heq =>
    rw [h] at heq
    cases heq
  · next cost' node' rest' heq =>
    rw [h] at heq
    cases heq
    refine ⟨⟨s.best, rest, fun e he =>
      s.known e ((pop_perm h).mem_iff.2 (List.mem_cons_of_mem _ he))⟩, rfl, rfl, ?_⟩
    have hget : (s.best.lookup node).get (s.known _ ((pop_perm h).mem_iff.2 List.mem_cons_self)) = state :=
      Option.get_of_eq_some _ hstate
    dsimp only
    rw [hget]

/-- A visit that is not stale settles the node. -/
theorem Tracks.visit {settled : List (PublicKey × NodeState)} (ht : Tracks graph scorer params s settled)
    {popped : Search} {cost : Nat} {rest : List (Nat × PublicKey)} (hbest : popped.best = s.best)
    (hheap : popped.heap = rest) (hpop : pop s.heap = some ((cost, node), rest))
    (hstate : (s.labels params).best node = some state) (hstale : ¬ state.cost < cost) :
    Tracks graph scorer params (Router.visit graph scorer params popped cost node state)
      (settled ++ [(node, state)]) := by
  have hlabels : popped.labels params = ⟨(s.labels params).best, rest⟩ := by
    rw [Search.labels, hbest, hheap]
    rfl
  have hperm : (s.labels params).queue.Perm ((cost, node) :: rest) := pop_perm hpop
  have hleast := pops.least _ _ _ hpop
  have hset := ht.sound.settle hperm hleast hstate hstale
  obtain ⟨hsound, hclosed, -⟩ := ht.sound.step expansions_grow ht.closed hperm hleast hstate hstale
  rw [← hlabels] at hsound hclosed
  rw [← visit_labels hstale] at hsound hclosed
  refine ⟨hsound, hclosed, ?_⟩
  rw [visit_payer hstale, hbest, ht.payer, List.find?_append, Search.better, hbest, ht.payer]
  cases hfound : settled.find? (starts params) with
  | none =>
    cases hstarts : starts params (node, state) with
    | true => simp [hstarts]
    | false => simp [hstarts]
  | some x =>
    have hle : x.2.cost ≤ state.cost :=
      (List.pairwise_append.1 hset.sorted).2.2 x (List.mem_of_find?_eq_some hfound) _
        (List.mem_singleton_self _)
    simp [payerState, Nat.not_lt_of_le hle]

theorem Tracks.search {settled : List (PublicKey × NodeState)} (n : Nat)
    (ht : Tracks graph scorer params s settled) :
    Tracks graph scorer params (Router.search graph scorer params n s)
        (BestFirst.run NodeState.cost pop (expansions graph scorer params) n (s.labels params) settled).2 ∧
      (Router.search graph scorer params n s).labels params =
        (BestFirst.run NodeState.cost pop (expansions graph scorer params) n (s.labels params)
          settled).1 := by
  induction n generalizing s settled with
  | zero => exact ⟨ht, rfl⟩
  | succ n ih =>
    unfold BestFirst.run
    cases hpop : pop s.heap with
    | none =>
      have hnone : pop (s.labels params).queue = none := hpop
      rw [search_none hpop, hnone]
      exact ⟨ht, rfl⟩
    | some r =>
      obtain ⟨⟨cost, v⟩, rest⟩ := r
      have hsome : pop (s.labels params).queue = some ((cost, v), rest) := hpop
      obtain ⟨st, hst, -⟩ := ht.sound.labelled cost v
        ((pop_perm hpop).mem_iff.2 List.mem_cons_self)
      have hv : v ≠ params.payer := by
        rintro rfl
        cases (labels_payer s).symm.trans hst
      obtain ⟨popped, hbest, hheap, hsearch⟩ := search_some graph scorer params n
        hpop ((labels_best hv s).symm.trans hst)
      have hlabels : popped.labels params = ⟨(s.labels params).best, rest⟩ := by
        rw [Search.labels, hbest, hheap]
        rfl
      rw [hsearch, hsome]
      dsimp only
      rw [hst]
      dsimp only
      split
      · next hstale =>
        rw [visit_stale hstale, ← hlabels]
        refine ih ⟨?_, ?_, ?_⟩
        · rw [hlabels]
          exact ht.sound.skip (pop_perm hpop) hst hstale
        · rw [hlabels]
          exact ht.closed
        · rw [hbest]
          exact ht.payer
      · next hstale =>
        have hnext := ih (ht.visit hbest hheap hpop hst hstale)
        rw [visit_labels hstale, hlabels] at hnext
        exact hnext

/-! ## The whole search -/

/-- Sorted by a key, the weights of a list are not more than in all. -/
theorem sum_sorted {α : Type} (key : α → PublicKey) (weight : α → Nat) (V : Finset PublicKey)
    (l : List α) : ∑ v ∈ V, ((l.filter fun a => key a = v).map weight).sum ≤ (l.map weight).sum := by
  induction l with
  | nil => simp
  | cons a l ih =>
    have hone : ∑ v ∈ V, (if key a = v then weight a else 0) ≤ weight a := by
      rw [Finset.sum_ite_eq]
      split
      · exact le_rfl
      · exact Nat.zero_le _
    have hsplit : ∀ v, (((a :: l).filter fun a => key a = v).map weight).sum =
        (if key a = v then weight a else 0) + ((l.filter fun a => key a = v).map weight).sum := by
      intro v
      by_cases hv : key a = v
      · rw [List.filter_cons_of_pos (by simpa using hv), if_pos hv, List.map_cons, List.sum_cons]
      · rw [List.filter_cons_of_neg (by simpa using hv), if_neg hv, Nat.zero_add]
    simp only [hsplit, Finset.sum_add_distrib, List.map_cons, List.sum_cons]
    omega

theorem sum_hints (V : Finset PublicKey) (hints : List (PublicKey × Edge)) :
    ∑ v ∈ V, (hints.filter fun e => e.1 = v).length ≤ hints.length := by
  have hlen : ∀ l : List (PublicKey × Edge), (l.map fun _ => 1).sum = l.length := by
    intro l
    rw [List.map_const', List.sum_replicate_nat, Nat.mul_one]
  have hsum := sum_sorted Prod.fst (fun _ => 1) V hints
  simpa only [hlen] using hsum

theorem sum_channels (graph : NetworkGraph) (V : Finset PublicKey) :
    ∑ v ∈ V, (graph.channelsOf v).length ≤ graph.size := by
  refine le_trans (Finset.sum_le_sum fun v _ => ?_)
    (sum_sorted Sigma.fst (fun n => n.2.channels.length) V graph.nodes.entries)
  rw [NetworkGraph.channelsOf]
  cases hinfo : graph.nodes.lookup v with
  | none => exact Nat.zero_le _
  | some info =>
    have hmem : (⟨v, info⟩ : Sigma fun _ : PublicKey => NodeInfo) ∈ graph.nodes.entries :=
      List.of_mem_dlookup hinfo
    refine List.single_le_sum (fun _ _ => Nat.zero_le _) _ ?_
    exact List.mem_map.2 ⟨⟨v, info⟩, List.mem_filter.2 ⟨hmem, decide_eq_true rfl⟩, rfl⟩

/-- The nodes that some edge leads into. -/
def heads (graph : NetworkGraph) (params : RouteParams) : Finset PublicKey :=
  (graph.nodes.keys ++ (hintEdges params).map Prod.fst).toFinset

theorem edgesInto_heads {v : PublicKey} (hv : v ∉ heads graph params) :
    (edgesInto graph params v).length = 0 := by
  simp only [heads, List.mem_toFinset, List.mem_append, not_or] at hv
  obtain ⟨hnode, hhint⟩ := hv
  have hgraph : graph.edgesInto v = [] := by
    rw [NetworkGraph.edgesInto, NetworkGraph.channelsOf, AList.lookup_eq_none.2 hnode]
    rfl
  have hhints : (hintEdges params).filter (fun e => e.1 = v) = [] := by
    refine List.filter_eq_nil_iff.2 fun e he heq => hhint ?_
    exact List.mem_map.2 ⟨e, he, of_decide_eq_true heq⟩
  rw [edgesInto, hgraph, hhints]
  rfl

variable (graph params) in
theorem sum_edges : ∑ v ∈ heads graph params, (edgesInto graph params v).length ≤
    graph.size + (hintEdges params).length := by
  have hlen : ∀ v, (edgesInto graph params v).length ≤
      (graph.channelsOf v).length + ((hintEdges params).filter fun e => e.1 = v).length := by
    intro v
    rw [edgesInto, List.length_append, List.length_map]
    exact Nat.add_le_add_right (List.length_filterMap_le _ _) _
  calc ∑ v ∈ heads graph params, (edgesInto graph params v).length
      ≤ ∑ v ∈ heads graph params, ((graph.channelsOf v).length +
          ((hintEdges params).filter fun e => e.1 = v).length) := Finset.sum_le_sum fun v _ => hlen v
    _ = ∑ v ∈ heads graph params, (graph.channelsOf v).length +
          ∑ v ∈ heads graph params, ((hintEdges params).filter fun e => e.1 = v).length :=
        Finset.sum_add_distrib
    _ ≤ graph.size + (hintEdges params).length :=
        Nat.add_le_add (sum_channels graph _) (sum_hints _ _)

/-- The nodes the search visits, in order, with the states it visits them in. -/
def settles (graph : NetworkGraph) (scorer : PathScorer) (params : RouteParams) :
    List (PublicKey × NodeState) :=
  (BestFirst.run NodeState.cost pop (expansions graph scorer params) (fuel graph params)
    ((start params).labels params) []).2

theorem start_labels (hne : params.payer ≠ params.payee) : (start params).labels params =
    ⟨Function.update (fun _ => none) params.payee (some (payeeState params)),
      [((payeeState params).cost, params.payee)]⟩ := by
  refine congrArg (BestFirst.Search.mk · _) (funext fun v => ?_)
  show (if v = params.payer then none else
    (AList.insert params.payee (payeeState params) ∅ : Table PublicKey NodeState).lookup v) = _
  by_cases hv : v = params.payee
  · subst hv
    rw [Function.update_self, if_neg hne.symm, AList.lookup_insert]
  · rw [Function.update_of_ne hv, AList.lookup_insert_ne hv, AList.lookup_empty, ite_self]

/-- The payee comes out of the heap first. -/
theorem pop_start (params : RouteParams) :
    pop (start params).heap = some ((params.amountMsat, params.payee), []) :=
  congrArg (fun rest => some (_, rest)) (List.erase_cons_head _ _)

variable (graph scorer) in
theorem start_tracks (hne : params.payer ≠ params.payee) :
    Tracks graph scorer params (start params) [] where
  sound := by
    rw [start_labels hne]
    exact .initial (.inl rfl)
  closed := fun _ => nofun
  payer := (AList.lookup_insert_ne hne).trans (AList.lookup_empty _)

variable (graph scorer) in
/-- The search ends, and has settled `settles`. -/
theorem search_spec (hne : params.payer ≠ params.payee) :
    Tracks graph scorer params (search graph scorer params (fuel graph params) (start params))
        (settles graph scorer params) ∧
      (search graph scorer params (fuel graph params) (start params)).heap = [] ∧
      ((search graph scorer params (fuel graph params) (start params)).labels params).best
        params.payee = some (payeeState params) := by
  have ht := start_tracks graph scorer hne
  obtain ⟨htracks, hlabels⟩ := ht.search (fuel graph params)
  refine ⟨htracks, ?_, ?_⟩
  · have hempty := BestFirst.run_finishes pops expansions_grow
      (fun v => (edgesInto graph params v).length) (V := heads graph params) (n := fuel graph params)
      (fun _ _ => length_expansions) (fun _ => edgesInto_heads) ht.sound ht.closed ?_
    · rw [← hlabels] at hempty
      exact hempty
    · have hsum := sum_edges graph params
      show 1 + _ ≤ fuel graph params + 0
      unfold fuel
      omega
  · obtain ⟨-, -, himp⟩ := BestFirst.run_sound pops expansions_grow (fuel graph params) ht.sound
      ht.closed
    have hfirst : ((start params).labels params).best params.payee = some (payeeState params) := by
      rw [start_labels hne]
      exact Function.update_self (f := fun _ => none) ..
    obtain ⟨l, hl, -⟩ := himp _ _ hfirst
    rw [← hlabels] at hl
    rcases htracks.sound.origin _ _ hl with heq | ⟨y, -, hy⟩
    · rw [hl, (Prod.mk.inj heq).2]
    · obtain ⟨-, e, -, hadmits, heq⟩ := mem_expansions.1 hy
      exact absurd (Prod.mk.inj heq).1.symm hadmits.payee

end Router
