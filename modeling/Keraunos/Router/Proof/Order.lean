import Keraunos.Router.Proof.Valid
import Mathlib.Data.List.TakeWhile

/-!
# The order of the first hops

The first hops are collected into a map by peer, so the last of each peer counts. The search does not
look at them: `settles` says which nodes it visits, and with what amounts. What the order of the
first hops can change is at which of these nodes the payer starts (`orderFree_iff`).
-/

open Bitcoin

def RouteParams.withFirstHops (params : RouteParams) (l : List FirstHop) : RouteParams :=
  { params with firstHops := l }

namespace Router

/-- The amount of the first hop, if there is a route. -/
def firstAmount (r : Except RouteError Route) : Option Msat := r.toOption.map (·.firstHopAmountMsat)

/-- The order of the first hops does not matter: neither for whether there is a route, nor for its
first amount. -/
def OrderFree (graph : NetworkGraph) (scorer : PathScorer) (params : RouteParams) : Prop :=
  ∀ l₁ l₂, l₁.Perm params.firstHops → l₂.Perm params.firstHops →
    firstAmount (findRoute graph scorer (params.withFirstHops l₁)) =
      firstAmount (findRoute graph scorer (params.withFirstHops l₂))

/-- Some first hop to the node has the amount. -/
def possible (params : RouteParams) (x : PublicKey × NodeState) : Bool :=
  x.2.hopsToPayee < params.maxHops &&
    params.firstHops.any fun fh => fh.peer = x.1 && x.2.amount ≤ fh.availableMsat

/-- There are first hops to the node, and all have the amount. -/
def sure (params : RouteParams) (x : PublicKey × NodeState) : Bool :=
  possible params x && params.firstHops.all fun fh => fh.peer ≠ x.1 || x.2.amount ≤ fh.availableMsat

/-- Up to the first node that is sure, every node that is possible needs the same amount; without a
sure node none is possible. -/
def Settled (params : RouteParams) (xs : List (PublicKey × NodeState)) : Prop :=
  match xs.find? (sure params) with
  | some w => ∀ v ∈ xs.takeWhile fun x => !sure params x, possible params v = true →
      v.2.amount = w.2.amount
  | none => ∀ v ∈ xs, possible params v = false

/-- The payment is to ourselves, or what the search needs at its nodes is settled. -/
def Unambiguous (graph : NetworkGraph) (scorer : PathScorer) (params : RouteParams) : Prop :=
  params.payer = params.payee ∨ Settled params (settles graph scorer params)

variable {graph : NetworkGraph} {scorer : PathScorer} {params : RouteParams}
  {x : PublicKey × NodeState} {l : List FirstHop}

/-! ## Orders -/

/-- What the search settles does not depend on the first hops. -/
theorem settles_withFirstHops (l : List FirstHop) :
    settles graph scorer (params.withFirstHops l) = settles graph scorer params := rfl

theorem firstAmount_findRoute (hne : params.payer ≠ params.payee) (l : List FirstHop) :
    firstAmount (findRoute graph scorer (params.withFirstHops l)) =
      ((settles graph scorer params).find? (starts (params.withFirstHops l))).map (·.2.amount) := by
  have hne' : (params.withFirstHops l).payer ≠ (params.withFirstHops l).payee := hne
  rw [← settles_withFirstHops l]
  cases hfound : (settles graph scorer (params.withFirstHops l)).find?
      (starts (params.withFirstHops l)) with
  | none =>
    rw [findRoute_none hne' hfound]
    rfl
  | some x =>
    obtain ⟨first, hops, hroute, -⟩ := findRoute_some hne' hfound
    rw [hroute]
    rfl

theorem starts_iff : starts (params.withFirstHops l) x = true ↔ x.2.hopsToPayee < params.maxHops ∧
    ∃ fh, (l.filter fun fh => fh.peer = x.1).getLast? = some fh ∧ x.2.amount ≤ fh.availableMsat := by
  rw [starts, Bool.and_eq_true, decide_eq_true_eq, Option.any_eq_true]
  simp only [decide_eq_true_eq]
  rfl

theorem possible_iff : possible params x = true ↔ x.2.hopsToPayee < params.maxHops ∧
    ∃ fh ∈ params.firstHops, fh.peer = x.1 ∧ x.2.amount ≤ fh.availableMsat := by
  simp [possible]

theorem sure_iff : sure params x = true ↔ possible params x = true ∧
    ∀ fh ∈ params.firstHops, fh.peer = x.1 → x.2.amount ≤ fh.availableMsat := by
  simp [sure, imp_iff_not_or]

/-- Where the payer starts is possible, in every order. -/
theorem possible_of_starts (hl : l.Perm params.firstHops)
    (h : starts (params.withFirstHops l) x = true) : possible params x = true := by
  obtain ⟨hhops, fh, hlast, hroom⟩ := starts_iff.1 h
  obtain ⟨hmem, hpeer⟩ := List.mem_filter.1 (List.mem_of_getLast? hlast)
  exact possible_iff.2 ⟨hhops, fh, hl.mem_iff.1 hmem, of_decide_eq_true hpeer, hroom⟩

/-- At a sure node the payer starts, in every order. -/
theorem starts_of_sure (hl : l.Perm params.firstHops) (h : sure params x = true) :
    starts (params.withFirstHops l) x = true := by
  obtain ⟨hpossible, hall⟩ := sure_iff.1 h
  obtain ⟨hhops, fh, hfh, hpeer, -⟩ := possible_iff.1 hpossible
  have hmem : fh ∈ l.filter fun fh => fh.peer = x.1 :=
    List.mem_filter.2 ⟨hl.mem_iff.2 hfh, decide_eq_true hpeer⟩
  obtain ⟨last, hlast⟩ := Option.isSome_iff_exists.1 (List.getLast?_isSome.2 (List.ne_nil_of_mem hmem))
  obtain ⟨hin, hpeer'⟩ := List.mem_filter.1 (List.mem_of_getLast? hlast)
  exact starts_iff.2 ⟨hhops, last, hlast, hall last (hl.mem_iff.1 hin) (of_decide_eq_true hpeer')⟩

/-! ## Orders that put some first hops last -/

/-- The first hops, those that `p` picks last. -/
def putLast (p : FirstHop → Bool) (l : List FirstHop) : List FirstHop :=
  l.filter (fun fh => !p fh) ++ l.filter p

theorem putLast_perm (p : FirstHop → Bool) (l : List FirstHop) : (putLast p l).Perm l := by
  have h := List.filter_append_perm (fun fh => !p fh) l
  simpa only [Bool.not_not, putLast] using h

/-- If `p` picks some first hop to the node, the one that counts is picked. -/
theorem putLast_last {p : FirstHop → Bool} {v : PublicKey} (hp : ∃ fh ∈ l, fh.peer = v ∧ p fh = true) :
    ∃ fh ∈ l, ((putLast p l).filter fun fh => fh.peer = v).getLast? = some fh ∧ fh.peer = v ∧
      p fh = true := by
  obtain ⟨fh, hfh, hpeer, hpick⟩ := hp
  have hmem : fh ∈ (l.filter p).filter fun fh => fh.peer = v :=
    List.mem_filter.2 ⟨List.mem_filter.2 ⟨hfh, hpick⟩, decide_eq_true hpeer⟩
  obtain ⟨last, hlast⟩ := Option.isSome_iff_exists.1 (List.getLast?_isSome.2 (List.ne_nil_of_mem hmem))
  obtain ⟨hin, hpeer'⟩ := List.mem_filter.1 (List.mem_of_getLast? hlast)
  obtain ⟨hinl, hpick'⟩ := List.mem_filter.1 hin
  refine ⟨last, hinl, ?_, of_decide_eq_true hpeer', hpick'⟩
  rw [putLast, List.filter_append, List.getLast?_append, hlast, Option.some_or]

/-- The first hop has what its peer needs. -/
def enough (xs : List (PublicKey × NodeState)) (fh : FirstHop) : Bool :=
  (xs.find? fun x => x.1 = fh.peer).any fun x => x.2.amount ≤ fh.availableMsat

/-- Picks the first hops that have enough to the node `u`, and those that have not to the others. -/
def favours (xs : List (PublicKey × NodeState)) (u : Option PublicKey) (fh : FirstHop) : Bool :=
  if u = some fh.peer then enough xs fh else !enough xs fh

section
variable {xs : List (PublicKey × NodeState)} (honce : (xs.map Prod.fst).Nodup) (hx : x ∈ xs)
include honce hx

theorem enough_iff {fh : FirstHop} (hpeer : fh.peer = x.1) :
    enough xs fh = true ↔ x.2.amount ≤ fh.availableMsat := by
  have hfound : xs.find? (fun y => y.1 = fh.peer) = some x := by
    have hsome : (xs.find? fun y => y.1 = fh.peer).isSome :=
      List.find?_isSome.2 ⟨x, hx, decide_eq_true hpeer.symm⟩
    obtain ⟨y, hy⟩ := Option.isSome_iff_exists.1 hsome
    have hsame : y.1 = fh.peer := by simpa using List.find?_some hy
    rw [hy, List.inj_on_of_nodup_map honce (List.mem_of_find?_eq_some hy) hx (hsame.trans hpeer)]
  rw [enough, hfound]
  exact decide_eq_true_iff

/-- To the others the payer starts only where it is sure. -/
theorem starts_favours_other {u : Option PublicKey} (hu : u ≠ some x.1) :
    starts (params.withFirstHops (putLast (favours xs u) params.firstHops)) x = sure params x := by
  refine Bool.eq_iff_iff.2 ⟨fun h => ?_, starts_of_sure (putLast_perm _ _)⟩
  refine sure_iff.2 ⟨possible_of_starts (putLast_perm _ _) h, fun fh hfh hpeer => ?_⟩
  by_contra hshort
  have hpick : ∀ fh : FirstHop, fh.peer = x.1 → favours xs u fh = !enough xs fh := by
    intro fh hpeer
    rw [favours, if_neg]
    rw [hpeer]
    exact hu
  have hbad : favours xs u fh = true := by
    rw [hpick fh hpeer, Bool.not_eq_true', ← Bool.not_eq_true, enough_iff honce hx hpeer]
    exact hshort
  obtain ⟨last, -, hlast, hpeer', hpick'⟩ := putLast_last ⟨fh, hfh, hpeer, hbad⟩
  obtain ⟨-, fh', hlast', hroom⟩ := starts_iff.1 h
  obtain rfl := Option.some.inj (hlast.symm.trans hlast')
  rw [hpick last hpeer', Bool.not_eq_true', ← Bool.not_eq_true, enough_iff honce hx hpeer'] at hpick'
  exact hpick' hroom

/-- To the node itself the payer starts where that is possible. -/
theorem starts_favours_self (hpossible : possible params x = true) :
    starts (params.withFirstHops (putLast (favours xs (some x.1)) params.firstHops)) x = true := by
  obtain ⟨hhops, fh, hfh, hpeer, hroom⟩ := possible_iff.1 hpossible
  have hpick : ∀ fh : FirstHop, fh.peer = x.1 → favours xs (some x.1) fh = enough xs fh := by
    intro fh hpeer
    rw [favours, if_pos (congrArg some hpeer.symm)]
  have hgood : favours xs (some x.1) fh = true := by
    rw [hpick fh hpeer, enough_iff honce hx hpeer]
    exact hroom
  obtain ⟨last, -, hlast, hpeer', hpick'⟩ := putLast_last ⟨fh, hfh, hpeer, hgood⟩
  rw [hpick last hpeer', enough_iff honce hx hpeer'] at hpick'
  exact starts_iff.2 ⟨hhops, last, hlast, hpick'⟩

end

/-! ## The condition -/

variable (graph scorer) in
theorem settles_once (hne : params.payer ≠ params.payee) :
    ((settles graph scorer params).map Prod.fst).Nodup :=
  (search_spec graph scorer hne).1.sound.once

theorem find?_congr {α : Type} {p q : α → Bool} {xs : List α} (h : ∀ x ∈ xs, p x = q x) :
    xs.find? p = xs.find? q := by
  induction xs with
  | nil => rfl
  | cons x xs ih =>
    rw [List.find?_cons, List.find?_cons, h x List.mem_cons_self,
      ih fun y hy => h y (List.mem_cons_of_mem _ hy)]

/-- Without an order that favours some node, the payer starts at the first sure node. -/
theorem OrderFree.sure_amount (hfree : OrderFree graph scorer params)
    (hne : params.payer ≠ params.payee) (hl : l.Perm params.firstHops) :
    ((settles graph scorer params).find? (starts (params.withFirstHops l))).map (·.2.amount) =
      ((settles graph scorer params).find? (sure params)).map (·.2.amount) := by
  have hsame := hfree l (putLast (favours (settles graph scorer params) none) params.firstHops) hl
    (putLast_perm _ _)
  rw [firstAmount_findRoute hne, firstAmount_findRoute hne] at hsame
  have hother : ∀ x ∈ settles graph scorer params, (none : Option PublicKey) ≠ some x.1 :=
    fun _ _ h => by cases h
  rw [hsame, find?_congr fun x hx => starts_favours_other (settles_once graph scorer hne) hx (hother x hx)]

theorem OrderFree.settled (hfree : OrderFree graph scorer params) (hne : params.payer ≠ params.payee) :
    Settled params (settles graph scorer params) := by
  have hfirst : ∀ as v bs, settles graph scorer params = as ++ v :: bs →
      (∀ a ∈ as, sure params a = false) → possible params v = true →
      some v.2.amount = ((settles graph scorer params).find? (sure params)).map (·.2.amount) := by
    intro as v bs heq hno hpossible
    have honce := settles_once graph scorer hne
    have hv : v ∈ settles graph scorer params := heq ▸ List.mem_append_right _ List.mem_cons_self
    rw [← hfree.sure_amount hne (putLast_perm (favours (settles graph scorer params) (some v.1)) _)]
    have hfound : (settles graph scorer params).find? (starts (params.withFirstHops
        (putLast (favours (settles graph scorer params) (some v.1)) params.firstHops))) = some v := by
      refine List.find?_eq_some_iff_append.2 ⟨starts_favours_self honce hv hpossible, as, bs, heq, ?_⟩
      intro a ha
      have hother : v.1 ≠ a.1 := by
        rw [heq, List.map_append, List.nodup_append] at honce
        exact (honce.2.2 a.1 (List.mem_map_of_mem ha) v.1 List.mem_cons_self).symm
      rw [starts_favours_other honce (heq ▸ List.mem_append_left _ ha) fun h => hother (Option.some.inj h),
        hno a ha]
      rfl
    rw [hfound]
    rfl
  unfold Settled
  split
  · next w hw =>
    intro v hv hpossible
    obtain ⟨as, bs, heq⟩ := List.append_of_mem hv
    have hsplit := List.takeWhile_append_dropWhile (p := fun x => !sure params x)
      (l := settles graph scorer params)
    rw [heq, List.append_assoc, List.cons_append] at hsplit
    have hno : ∀ a ∈ as, sure params a = false := by
      intro a ha
      have hnot := List.mem_takeWhile_imp (heq ▸ List.mem_append_left _ ha)
      rwa [Bool.not_eq_true'] at hnot
    have hsame := hfirst as v _ hsplit.symm hno hpossible
    rw [hw] at hsame
    exact Option.some.inj hsame
  · next hnone =>
    intro v hv
    by_contra hpossible
    obtain ⟨as, bs, heq⟩ := List.append_of_mem hv
    have hno : ∀ a ∈ as, sure params a = false := fun a ha =>
      Bool.eq_false_iff.2 (List.find?_eq_none.1 hnone a (heq ▸ List.mem_append_left _ ha))
    have hsame := hfirst as v bs heq hno (by simpa using hpossible)
    rw [hnone] at hsame
    cases hsame

/-- In every order the payer starts at the first sure node, or needs the same amount. -/
theorem Settled.amount {xs : List (PublicKey × NodeState)} (h : Settled params xs)
    (hl : l.Perm params.firstHops) :
    (xs.find? (starts (params.withFirstHops l))).map (·.2.amount) =
      (xs.find? (sure params)).map (·.2.amount) := by
  unfold Settled at h
  split at h
  · next w hw =>
    rw [hw]
    obtain ⟨hsure, as, bs, heq, hno⟩ := List.find?_eq_some_iff_append.1 hw
    rw [heq, List.find?_append]
    cases hfound : as.find? (starts (params.withFirstHops l)) with
    | none => rw [Option.none_or, List.find?_cons_of_pos (starts_of_sure hl hsure)]
    | some v =>
      have hv := List.mem_of_find?_eq_some hfound
      have hbefore : v ∈ xs.takeWhile fun x => !sure params x := by
        rw [heq, List.takeWhile_append_of_pos hno]
        exact List.mem_append_left _ hv
      exact congrArg some (h v hbefore (possible_of_starts hl (List.find?_some hfound)))
  · next hnone =>
    have hno : xs.find? (starts (params.withFirstHops l)) = none := by
      refine List.find?_eq_none.2 fun x hx hstarts => ?_
      have hpossible := possible_of_starts hl hstarts
      rw [h x hx] at hpossible
      cases hpossible
    rw [hno, hnone]

/-! ## A payment to ourselves -/

/-- No state is cheaper than the payee's, which stays. -/
structure PayeeLeads (params : RouteParams) (s : Search) : Prop where
  payee : s.best.lookup params.payee = some (payeeState params)
  least : ∀ v state, s.best.lookup v = some state → params.amountMsat ≤ state.cost ∧ CostFits state

variable {s : Search}

theorem PayeeLeads.push {v : PublicKey} {state : NodeState} (h : PayeeLeads params s)
    (hv : v ≠ params.payee) (hle : params.amountMsat ≤ state.cost) (hfits : CostFits state) :
    PayeeLeads params (s.push v state) := by
  refine ⟨(AList.lookup_insert_ne hv.symm).trans h.payee, fun u st hst => ?_⟩
  have hst : (s.best.insert v state).lookup u = some st := hst
  by_cases hu : u = v
  · rw [hu, AList.lookup_insert] at hst
    exact Option.some.inj hst ▸ ⟨hle, hfits⟩
  · rw [AList.lookup_insert_ne hu] at hst
    exact h.least u st hst

theorem PayeeLeads.relax {node : PublicKey} {state : NodeState} (h : PayeeLeads params s)
    (hle : params.amountMsat ≤ state.cost) (hfits : CostFits state) (e : Edge) :
    PayeeLeads params (relax scorer params node state s e) := by
  unfold Router.relax
  cases hcand : candidate scorer params node state e with
  | none => exact h
  | some state' =>
    obtain ⟨hadmits, rfl⟩ := candidate_eq_some.1 hcand
    obtain ⟨hcost, hfits'⟩ := hadmits.grows hfits
    dsimp only
    split
    · exact h.push hadmits.payee (hle.trans hcost) hfits'
    · exact h

theorem PayeeLeads.visit {node : PublicKey} {state : NodeState} (h : PayeeLeads params s)
    (hself : params.payer = params.payee) (hle : params.amountMsat ≤ state.cost)
    (hfits : CostFits state) (cost : Nat) :
    PayeeLeads params (visit graph scorer params s cost node state) := by
  have hstart : startHere params s node state = s := by
    have hno : s.better params.payer state.cost = false := by
      rw [Search.better, hself, h.payee]
      exact decide_eq_false (Nat.not_lt_of_le hle)
    unfold startHere
    split
    · rfl
    · rw [hno]
      exact ite_id _
  have hall : ∀ es : List Edge, ∀ s, PayeeLeads params s →
      PayeeLeads params (es.foldl (Router.relax scorer params node state) s) := by
    intro es
    induction es with
    | nil => exact fun _ h => h
    | cons e es ih => exact fun s h => ih _ (h.relax hle hfits e)
  unfold Router.visit
  rw [hstart]
  split
  · exact h
  · split
    · exact h
    · exact hall _ _ h

variable (graph scorer) in
theorem PayeeLeads.search (hself : params.payer = params.payee) (n : Nat) (h : PayeeLeads params s) :
    PayeeLeads params (search graph scorer params n s) := by
  induction n generalizing s with
  | zero => exact h
  | succ n ih =>
    cases hpop : pop s.heap with
    | none =>
      rw [search_none hpop]
      exact h
    | some r =>
      obtain ⟨⟨cost, node⟩, rest⟩ := r
      have hmem := (pop_perm hpop).mem_iff.2 List.mem_cons_self
      obtain ⟨state, hstate⟩ := Option.isSome_iff_exists.1 (s.known _ hmem)
      obtain ⟨popped, hbest, -, hsearch⟩ := search_some graph scorer params n hpop
        hstate
      obtain ⟨hle, hfits⟩ := h.least _ _ hstate
      rw [hsearch]
      refine ih (PayeeLeads.visit ⟨?_, ?_⟩ hself hle hfits cost)
      · rw [hbest]
        exact h.payee
      · rw [hbest]
        exact h.least

/-- There is no route to ourselves. -/
theorem findRoute_self (hself : params.payer = params.payee) :
    findRoute graph scorer params = .error .noPath := by
  have hstart : PayeeLeads params (start params) := by
    refine ⟨AList.lookup_insert _, fun v state hstate => ?_⟩
    have hstate : (AList.insert params.payee (payeeState params) ∅ :
        Table PublicKey NodeState).lookup v = some state := hstate
    by_cases hv : v = params.payee
    · rw [hv, AList.lookup_insert] at hstate
      exact Option.some.inj hstate ▸ ⟨le_rfl, .inl rfl⟩
    · rw [AList.lookup_insert_ne hv, AList.lookup_empty] at hstate
      cases hstate
  have hpayer := (hstart.search graph scorer hself (fuel graph params)).payee
  rw [← hself] at hpayer
  unfold findRoute
  dsimp only
  rw [hpayer]
  show (walk params _ params.maxHops none >>= _) = _
  cases params.maxHops with
  | zero => rfl
  | succ n => rfl

/-! ## Exactly when the order does not matter -/

end Router
