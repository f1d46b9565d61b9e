import Keraunos.Router.Proof.Search
import Keraunos.Router.Word

/-!
# What fits a word on the way of a payment

A fee multiplies the amount with the rate of a policy before the limits of the policy are looked at,
so one channel or hint into a node that the search visits is enough for an overflow. The conditions
here are read off the computations; `RelaxFits` is about a single pass of the search over an edge, and
a search fits if all its passes do (`SearchFits`).
-/

open Bitcoin

/-- The fee fits: the product is taken before the division. -/
def DirectionalInfo.FeeFits (p : DirectionalInfo) (amount : Msat) : Prop :=
  amount * p.feeProportionalMillionths < 2 ^ 64 ∧ p.feeFor amount < 2 ^ 64

namespace Router

def CapacityFits (capacitySat : Option Nat) : Prop := ∀ cap ∈ capacitySat, cap * 1000 < 2 ^ 64

/-- The share of the capacity that is used, in millionths. -/
def usedPpm (amount : Msat) (cap : Nat) : Nat := min (amount * 1000000) (2 ^ 64 - 1) / (cap * 1000)

/-- The penalty fits. -/
structure PenaltyFits (scorer : DefaultScorer) (edge : EdgeCandidate) : Prop where
  delay : scorer.cltvPenaltyPerBlockMsat * edge.policy.cltvExpiryDelta < 2 ^ 64
  base : scorer.basePenaltyMsat + scorer.cltvPenaltyPerBlockMsat * edge.policy.cltvExpiryDelta < 2 ^ 64
  capacity : CapacityFits edge.capacitySat
  square : ∀ cap ∈ edge.capacitySat, usedPpm edge.amountMsat cap * usedPpm edge.amountMsat cap < 2 ^ 64
  total : scorer.penaltyMsat edge < 2 ^ 64

/-- A pass over an edge fits. -/
def RelaxFits (scorer : DefaultScorer) (params : RouteParams) (node : PublicKey) (state : NodeState)
    (s : Search) (e : Edge) : Prop :=
  e.source ≠ params.payee → e.source ≠ params.payer →
    let fee := e.policy.feeFor state.amount
    let amountIn := state.amount + fee
    e.policy.FeeFits state.amount ∧ amountIn < 2 ^ 64 ∧
      (e.policy.htlcMinimumMsat ≤ amountIn → amountIn ≤ e.policy.htlcMaximumMsat →
        CapacityFits e.capacitySat ∧ (e.Carries amountIn →
          PenaltyFits scorer ⟨e.shortChannelId, e.source, node, e.policy, e.capacitySat, amountIn⟩ ∧
            (s.better e.source (forwards scorer.penaltyMsat node state e).cost = true →
              state.cltv + e.policy.cltvExpiryDelta < 2 ^ 32)))

/-- All passes over the edges into a node fit. -/
def VisitFits (graph : NetworkGraph) (scorer : DefaultScorer) (params : RouteParams) (s : Search)
    (cost : Nat) (node : PublicKey) (state : NodeState) : Prop :=
  cost ≤ state.cost → state.hopsToPayee < params.maxHops →
    Overflow.FoldFits (RelaxFits scorer params node state)
      (relax scorer.penaltyMsat params node state) (startHere params s node state)
      (edgesInto graph params node)

/-- All passes of the search fit. -/
def SearchFits (graph : NetworkGraph) (scorer : DefaultScorer) (params : RouteParams) :
    Nat → Search → Prop
  | 0, _ => True
  | fuel + 1, s =>
    match h : pop s.heap with
    | none => True
    | some ((cost, node), rest) =>
      have hnode := Search.known_top h
      let popped : Search := ⟨s.best, rest, Search.known_rest h⟩
      let state := (s.best.lookup node).get hnode
      VisitFits graph scorer params popped cost node state ∧
        SearchFits graph scorer params fuel
          (visit graph scorer.penaltyMsat params popped cost node state)

variable {ε : Type} {scorer : DefaultScorer} {params : RouteParams} {graph : NetworkGraph}

/-! ## Fees and penalties -/

theorem tracks_feeFor (p : DirectionalInfo) (amount : Msat) :
    Overflow.Tracks (fun m => (p.feeFor64 m amount : Except (Fault ε) Msat)) (p.FeeFits amount)
      (.ok (p.feeFor amount)) :=
  (Overflow.Tracks.mul _ _).bind (Overflow.Tracks.add _ _)

theorem tracks_capacity (capacitySat : Option Nat) :
    Overflow.Tracks (fun m => (capacity64 m capacitySat : Except (Fault ε) (Option Msat)))
      (CapacityFits capacitySat) (.ok (capacitySat.map (· * 1000))) := by
  cases capacitySat with
  | none => exact (Overflow.Tracks.pure _).congr ⟨fun _ _ => nofun, fun _ => trivial⟩
  | some cap =>
    refine ((Overflow.Tracks.mul cap 1000).bind (Overflow.Tracks.pure _)).congr ?_
    simp [CapacityFits]

/-- What the share of the capacity adds to a penalty. -/
theorem tracks_share (penalty amount : Nat) (capacity : Option Msat) :
    Overflow.Tracks (fun m => (match capacity with
      | none => return penalty
      | some cap => do
        let square ← m.mul (min (amount * 1000000) (2 ^ 64 - 1) / cap)
          (min (amount * 1000000) (2 ^ 64 - 1) / cap)
        m.add penalty (square / 1000) : Except (Fault ε) Nat))
      (∀ cap ∈ capacity, ∀ used, used = min (amount * 1000000) (2 ^ 64 - 1) / cap →
        used * used < 2 ^ 64 ∧ penalty + used * used / 1000 < 2 ^ 64)
      (.ok (match capacity with
        | none => penalty
        | some cap =>
          let usedPpm := min (amount * 1000000) (2 ^ 64 - 1) / cap
          penalty + usedPpm * usedPpm / 1000)) := by
  cases capacity with
  | none => exact (Overflow.Tracks.pure _).congr ⟨fun _ _ => nofun, fun _ => trivial⟩
  | some cap =>
    have htracks : Overflow.Tracks (fun m => (do
        let square ← m.mul (min (amount * 1000000) (2 ^ 64 - 1) / cap)
          (min (amount * 1000000) (2 ^ 64 - 1) / cap)
        m.add penalty (square / 1000) : Except (Fault ε) Nat)) _ _ := .bind (.mul _ _) (.add _ _)
    exact htracks.congr (by simp)

theorem mem_capacity {o : Option Nat} {capMsat : Msat} :
    capMsat ∈ (o.map (· * 1000)).filter (0 < ·) ↔ ∃ cap ∈ o, 0 < cap ∧ capMsat = cap * 1000 := by
  cases o with
  | none => simp
  | some cap =>
    rw [Option.map_some, Option.filter_some]
    split
    · next h => 
      have hpos : 0 < cap := by simpa using h
      simp [hpos, eq_comm]
    · next h =>
      have hzero : cap = 0 := by simpa using h
      simp [hzero]

theorem tracks_penalty (scorer : DefaultScorer) (edge : EdgeCandidate) :
    Overflow.Tracks (fun m => (scorer.penaltyMsat64 m edge : Except (Fault ε) Nat))
      (PenaltyFits scorer edge) (.ok (scorer.penaltyMsat edge)) := by
  have htracks : Overflow.Tracks (fun m => (scorer.penaltyMsat64 m edge : Except (Fault ε) Nat)) _ _ :=
    .bind (.mul _ _) (.bind (.add _ _) (.bind (tracks_capacity _) (tracks_share _ _ _)))
  have htotal : ∀ capMsat ∈ (edge.capacitySat.map (· * 1000)).filter (0 < ·),
      scorer.penaltyMsat edge =
        scorer.basePenaltyMsat + scorer.cltvPenaltyPerBlockMsat * edge.policy.cltvExpiryDelta +
          (min (edge.amountMsat * 1000000) (2 ^ 64 - 1) / capMsat) *
            (min (edge.amountMsat * 1000000) (2 ^ 64 - 1) / capMsat) / 1000 := by
    intro capMsat hcap
    unfold DefaultScorer.penaltyMsat
    rw [Option.mem_def.1 hcap]
  refine htracks.congr ⟨fun ⟨hdelay, hbase, hcapacity, hshare⟩ => ?_, fun h => ?_⟩
  · refine ⟨hdelay, hbase, hcapacity, fun cap hcap => ?_, ?_⟩
    · rcases Nat.eq_zero_or_pos cap with rfl | hpos
      · simp [usedPpm]
      · exact (hshare _ (mem_capacity.2 ⟨cap, hcap, hpos, rfl⟩) _ rfl).1
    · cases hfound : (edge.capacitySat.map (· * 1000)).filter (0 < ·) with
      | none =>
        unfold DefaultScorer.penaltyMsat
        rw [hfound]
        exact hbase
      | some capMsat =>
        rw [htotal capMsat hfound]
        exact (hshare capMsat hfound _ rfl).2
  · refine ⟨h.delay, h.base, h.capacity, ?_⟩
    rintro capMsat hfound used rfl
    obtain ⟨cap, hcap, -, rfl⟩ := mem_capacity.1 hfound
    refine ⟨h.square cap hcap, ?_⟩
    rw [← htotal _ hfound]
    exact h.total

/-! ## The search -/

/-- Take the state a node forwards in, if it is better. -/
def improve (scorer : PathScorer) (node : PublicKey) (state : NodeState) (s : Search) (e : Edge) :
    Search :=
  if s.better e.source (forwards scorer node state e).cost then
    s.push e.source (forwards scorer node state e)
  else s

theorem relax_eq (scorer : PathScorer) (node : PublicKey) (state : NodeState) (s : Search) (e : Edge) :
    relax scorer params node state s e =
      if e.source = params.payee then s
      else if e.source = params.payer then s
      else if state.amount + e.policy.feeFor state.amount < e.policy.htlcMinimumMsat then s
      else if state.amount + e.policy.feeFor state.amount > e.policy.htlcMaximumMsat then s
      else if (e.capacitySat.map (· * 1000)).any fun cap =>
          state.amount + e.policy.feeFor state.amount > cap then s
      else improve scorer node state s e := by
  have hany : (e.capacitySat.any fun cap => state.amount + e.policy.feeFor state.amount > cap * 1000) =
      (e.capacitySat.map (· * 1000)).any fun cap =>
        state.amount + e.policy.feeFor state.amount > cap := by
    cases e.capacitySat with
    | none => rfl
    | some cap => rfl
  unfold relax candidate
  dsimp only
  rw [← hany]
  split_ifs
  all_goals rfl

theorem tracks_relaxInto (node : PublicKey) (state : NodeState) (s : Search) (e : Edge) :
    Overflow.Tracks (fun m => (relaxInto64 m scorer node state s e (e.policy.feeFor state.amount)
        (state.amount + e.policy.feeFor state.amount) : Except (Fault ε) Search))
      (PenaltyFits scorer ⟨e.shortChannelId, e.source, node, e.policy, e.capacitySat,
          state.amount + e.policy.feeFor state.amount⟩ ∧
        (s.better e.source (forwards scorer.penaltyMsat node state e).cost = true →
          state.cltv + e.policy.cltvExpiryDelta < 2 ^ 32))
      (.ok (improve scorer.penaltyMsat node state s e)) := by
  have hvalue : (if s.better e.source (forwards scorer.penaltyMsat node state e).cost = true then
      .ok (s.push e.source (forwards scorer.penaltyMsat node state e)) else .ok s :
        Except (Fault ε) Search) = .ok (improve scorer.penaltyMsat node state s e) := by
    unfold improve
    split
    · rfl
    · rfl
  have hbetter : Overflow.Tracks (fun m => (if s.better e.source
        (forwards scorer.penaltyMsat node state e).cost = true then do
          let cltv ← m.add32 state.cltv e.policy.cltvExpiryDelta
          return s.push e.source { forwards scorer.penaltyMsat node state e with cltv := cltv }
        else return s : Except (Fault ε) Search)) _
      (if s.better e.source (forwards scorer.penaltyMsat node state e).cost = true then
        .ok (s.push e.source (forwards scorer.penaltyMsat node state e)) else .ok s) :=
    .ite (.bind (.add32 _ _) (.pure _)) (.pure _)
  rw [hvalue] at hbetter
  have htracks : Overflow.Tracks (fun m => (relaxInto64 m scorer node state s e
      (e.policy.feeFor state.amount) (state.amount + e.policy.feeFor state.amount) :
        Except (Fault ε) Search)) _ _ := .bind (tracks_penalty scorer _) hbetter
  exact htracks.congr (by simp)

theorem carries_iff_any {e : Edge} {amount : Msat} (hmin : e.policy.htlcMinimumMsat ≤ amount)
    (hmax : amount ≤ e.policy.htlcMaximumMsat) : e.Carries amount ↔
      ((e.capacitySat.map (· * 1000)).any fun cap => amount > cap) = false := by
  have hcarries : e.Carries amount ↔ ∀ cap ∈ e.capacitySat, amount ≤ cap * 1000 :=
    ⟨fun h => h.capacity, fun h => ⟨hmin, hmax, h⟩⟩
  rw [hcarries]
  cases e.capacitySat with
  | none => simp
  | some cap => simp

theorem tracks_relax (node : PublicKey) (state : NodeState) (s : Search) (e : Edge) :
    Overflow.Tracks (fun m => (relax64 m scorer params node state s e : Except (Fault ε) Search))
      (RelaxFits scorer params node state s e)
      (.ok (relax scorer.penaltyMsat params node state s e)) := by
  rw [relax_eq]
  simp only [apply_ite Except.ok]
  have htracks : Overflow.Tracks
      (fun m => (relax64 m scorer params node state s e : Except (Fault ε) Search)) _ _ :=
    .ite (.pure _) (.ite (.pure _) (.bind (tracks_feeFor _ _) (.bind (.add _ _)
      (.ite (.pure _) (.ite (.pure _) (.bind (tracks_capacity _)
        (.ite (.pure _) (tracks_relaxInto node state s e))))))))
  refine htracks.congr ?_
  unfold RelaxFits
  simp only [imp_true_iff, true_and, gt_iff_lt, not_lt, Bool.not_eq_true]
  refine imp_congr_right fun _ => imp_congr_right fun _ => and_congr_right fun _ =>
    and_congr_right fun _ => imp_congr_right fun hmin => imp_congr_right fun hmax =>
      and_congr_right fun _ => ?_
  rw [carries_iff_any hmin hmax]

theorem tracks_visit (s : Search) (cost : Nat) (node : PublicKey) (state : NodeState) :
    Overflow.Tracks
      (fun m => (visit64 m scorer graph params s cost node state : Except (Fault ε) Search))
      (VisitFits graph scorer params s cost node state)
      (.ok (visit graph scorer.penaltyMsat params s cost node state)) := by
  unfold visit
  simp only [apply_ite Except.ok]
  have htracks : Overflow.Tracks
      (fun m => (visit64 m scorer graph params s cost node state : Except (Fault ε) Search)) _ _ :=
    .ite (.pure _) (.ite (.pure _) (.foldlM (fun s e => tracks_relax node state s e) _ _))
  refine htracks.congr ?_
  unfold VisitFits
  simp only [imp_true_iff, true_and, ge_iff_le, not_le, not_lt]

section
variable {s : Search} {cost : Nat} {node : PublicKey} {rest : List (Nat × PublicKey)}

/-- The search after an entry is taken out of the heap. -/
def Search.popped (h : pop s.heap = some ((cost, node), rest)) : Search :=
  ⟨s.best, rest, Search.known_rest h⟩

/-- The state of the node that is taken out. -/
def Search.stateOf (h : pop s.heap = some ((cost, node), rest)) : NodeState :=
  (s.best.lookup node).get (Search.known_top h)

theorem search_of_empty (scorer : PathScorer) (fuel : Nat) (h : pop s.heap = none) :
    search graph scorer params (fuel + 1) s = s := by
  unfold search
  split
  · rfl
  · next heq => cases h.symm.trans heq

theorem search_of_pop (scorer : PathScorer) (fuel : Nat)
    (h : pop s.heap = some ((cost, node), rest)) :
    search graph scorer params (fuel + 1) s = search graph scorer params fuel
      (visit graph scorer params (Search.popped h) cost node (Search.stateOf h)) := by
  conv_lhs => unfold search
  split
  · next heq => cases h.symm.trans heq
  · next heq =>
    cases h.symm.trans heq
    rfl

theorem search64_of_empty (m : Overflow) (fuel : Nat) (h : pop s.heap = none) :
    (search64 m scorer graph params (fuel + 1) s : Except (Fault ε) Search) = .ok s := by
  unfold search64
  split
  · rfl
  · next heq => cases h.symm.trans heq

theorem search64_of_pop (m : Overflow) (fuel : Nat) (h : pop s.heap = some ((cost, node), rest)) :
    (search64 m scorer graph params (fuel + 1) s : Except (Fault ε) Search) =
      visit64 m scorer graph params (Search.popped h) cost node (Search.stateOf h) >>=
        search64 m scorer graph params fuel := by
  conv_lhs => unfold search64
  split
  · next heq => cases h.symm.trans heq
  · next heq =>
    cases h.symm.trans heq
    rfl

theorem searchFits_of_empty (fuel : Nat) (h : pop s.heap = none) :
    SearchFits graph scorer params (fuel + 1) s := by
  unfold SearchFits
  split
  · trivial
  · next heq => cases h.symm.trans heq

theorem searchFits_of_pop (fuel : Nat) (h : pop s.heap = some ((cost, node), rest)) :
    SearchFits graph scorer params (fuel + 1) s ↔
      VisitFits graph scorer params (Search.popped h) cost node (Search.stateOf h) ∧
        SearchFits graph scorer params fuel
          (visit graph scorer.penaltyMsat params (Search.popped h) cost node (Search.stateOf h)) := by
  conv_lhs => unfold SearchFits
  split
  · next heq => cases h.symm.trans heq
  · next heq =>
    cases h.symm.trans heq
    exact Iff.rfl

end

theorem tracks_search (fuel : Nat) (s : Search) :
    Overflow.Tracks (fun m => (search64 m scorer graph params fuel s : Except (Fault ε) Search))
      (SearchFits graph scorer params fuel s)
      (.ok (search graph scorer.penaltyMsat params fuel s)) := by
  induction fuel generalizing s with
  | zero => exact .pure _
  | succ fuel ih =>
    cases hpop : pop s.heap with
    | none =>
      simp only [search64_of_empty _ fuel hpop, search_of_empty _ fuel hpop]
      have htracks : Overflow.Tracks (fun _ => (.ok s : Except (Fault ε) Search)) True (.ok s) := .pure _
      exact htracks.congr (iff_of_true trivial (searchFits_of_empty fuel hpop))
    | some entry =>
      obtain ⟨⟨cost, node⟩, rest⟩ := entry
      simp only [search64_of_pop _ fuel hpop, search_of_pop _ fuel hpop]
      exact ((tracks_visit _ _ _ _).bind (ih _)).congr (searchFits_of_pop fuel hpop).symm

theorem tracks_findRoute (graph : NetworkGraph) (scorer : DefaultScorer) (params : RouteParams) :
    Overflow.Tracks (fun m => findRoute64 m graph scorer params)
      (SearchFits graph scorer params (fuel graph params) (start params))
      ((findRoute graph scorer.penaltyMsat params).mapError .err) := by
  rw [findRoute_eq_routeOf]
  have htracks : Overflow.Tracks (fun m => findRoute64 m graph scorer params) _ _ :=
    .bind (tracks_search _ _) (.pure _)
  exact htracks.congr (and_iff_left trivial)

/-- The first edges that are looked at are those into the payee. -/
theorem fee_fits_of_payee (hshort : 0 < params.maxHops)
    (h : SearchFits graph scorer params (fuel graph params) (start params)) {e : Edge}
    (he : e ∈ edgesInto graph params params.payee) (hpayee : e.source ≠ params.payee)
    (hpayer : e.source ≠ params.payer) : e.policy.FeeFits params.amountMsat := by
  have hpop := pop_start params
  have hstate : (start params).best.lookup params.payee = some (payeeState params) :=
    AList.lookup_insert _
  obtain ⟨n, hn⟩ : ∃ n, fuel graph params = n + 1 :=
    ⟨graph.size + (hintEdges params).length, by unfold fuel; omega⟩
  rw [hn] at h
  have hvisit := ((searchFits_of_pop n hpop).1 h).1
  rw [Search.stateOf, Option.get_of_eq_some _ hstate] at hvisit
  obtain ⟨s, hfits⟩ := (hvisit le_rfl hshort).exists_of_mem he
  exact (hfits hpayee hpayer).1

/-- Nothing overflows in a fee, a penalty or a search exactly if it fits. One edge into the payee whose
fee does not fit is enough for a panic. -/
theorem no_overflow_iff (graph : NetworkGraph) (scorer : DefaultScorer) (params : RouteParams) :
    (∀ (p : DirectionalInfo) (amount : Msat),
      (∀ m, (p.feeFor64 m amount : Except (Fault RouteError) Msat) = .ok (p.feeFor amount)) ↔
        p.FeeFits amount) ∧
    (∀ edge : EdgeCandidate,
      (∀ m, (scorer.penaltyMsat64 m edge : Except (Fault RouteError) Nat) =
        .ok (scorer.penaltyMsat edge)) ↔ PenaltyFits scorer edge) ∧
    ((∀ m, findRoute64 m graph scorer params =
        (findRoute graph scorer.penaltyMsat params).mapError .err) ↔
      SearchFits graph scorer params (fuel graph params) (start params)) ∧
    (0 < params.maxHops → ∀ e ∈ edgesInto graph params params.payee, e.source ≠ params.payee →
      e.source ≠ params.payer → ¬ e.policy.FeeFits params.amountMsat →
        findRoute64 .checked graph scorer params = .error .panic) := by
  refine ⟨fun p amount => (tracks_feeFor p amount).forall_iff nofun,
    fun edge => (tracks_penalty scorer edge).forall_iff nofun,
    (tracks_findRoute graph scorer params).forall_iff fun h => ?_,
    fun hshort e he hpayee hpayer hfee => (tracks_findRoute graph scorer params).panics fun h =>
      hfee (fee_fits_of_payee hshort h he hpayee hpayer)⟩
  cases hroute : findRoute graph scorer.penaltyMsat params with
  | error e =>
    rw [hroute] at h
    cases h
  | ok route =>
    rw [hroute] at h
    cases h

end Router

namespace Demo

/-- A channel from node 1 to node 2 with the highest proportional fee. -/
def usury : NetworkGraph :=
  link 1 1 2 (policy 0 4294967295 40) (.new .regtest)

/-- A payment of about 0.04 bitcoin. -/
def usuryParams : RouteParams where
  payer := vertex 0
  payee := vertex 2
  amountMsat := 4294967298
  finalCltvExpiry := 800018
  firstHops := [⟨vertex 1, 9, 10000000000⟩]
  routeHints := []
  maxHops := 20

end Demo

namespace Router

/-- One channel makes a payment panic, or pays a fee that wrapped around where the fee is more than
the channel carries. A small channel does the same to the scorer. -/
theorem usury_overflows :
    findRoute64 .checked Demo.usury {} Demo.usuryParams = .error .panic ∧
    (findRoute64 .unchecked Demo.usury {} Demo.usuryParams).toOption.map (·.firstHopAmountMsat) =
      some (4294967298 + 4294) ∧
    findRoute Demo.usury (DefaultScorer.penaltyMsat {}) Demo.usuryParams = .error .noPath ∧
    (DefaultScorer.penaltyMsat64 .checked {} ⟨1, Demo.vertex 1, Demo.vertex 2, Demo.policy 0 0 40,
      some 1, 2100000000000000000⟩ : Except (Fault RouteError) Nat) = .error .panic := by
  refine ⟨?_, ?_, ?_, ?_⟩
  all_goals decide +kernel

end Router
