import Keraunos.Channel.Dance
import Mathlib.Logic.Function.Basic

/-!
# The ledger of a channel

What the commitment dance is for, without transactions and phases: two logs of updates, ours
(`true`) and the peer's (`false`), and how far each log has come into the two commitments. Every
HTLC ever offered has an entry with the places of its add and of its removal in these logs; its
phase on a commitment is a comparison of places with counters (`Ledger.phase`).

`Ledger.Wf` is the invariant of the ledger, kept by each operation (`Wf.add`, `Wf.remove`,
`Wf.fee`, `Wf.sign`, `Wf.revoke`, `Wf.accept`).
-/

/-- An update, as its sender makes it. -/
inductive Update where
  | add (id : HtlcId) (amountMsat : Msat) (paymentHash : PaymentHash) (cltvExpiry : Nat)
  | remove (id : HtlcId) (resolution : HtlcResolution)
  | fee (feerate : FeeRatePerKw)
  deriving DecidableEq, Repr

/-- An add with its place in the log of the offerer. -/
structure Offer where
  addAt : Nat
  id : HtlcId
  amountMsat : Msat
  paymentHash : PaymentHash
  cltvExpiry : Nat
  deriving DecidableEq, Repr

namespace Update

/-- The add in place `u.2`, if it is one. -/
def offer? (u : Update × Nat) : Option Offer :=
  match u.1 with
  | .add id amountMsat paymentHash cltvExpiry => some ⟨u.2, id, amountMsat, paymentHash, cltvExpiry⟩
  | _ => none

/-- The removal of `id` in place `u.2`, if it is one. -/
def removal? (id : HtlcId) (u : Update × Nat) : Option (Nat × HtlcResolution) :=
  match u.1 with
  | .remove id' r => if id' = id then some (u.2, r) else none
  | _ => none

/-- The feerate set, if it is one. -/
def fee? : Update → Option FeeRatePerKw
  | .fee feerate => some feerate
  | _ => none

/-- The adds of a log. -/
def offers (log : List Update) : List Offer := log.zipIdx.filterMap offer?

/-- The first removal of `id` in a log. -/
def removalOf (log : List Update) (id : HtlcId) : Option (Nat × HtlcResolution) :=
  log.zipIdx.findSome? (removal? id)

/-- The last feerate of a log. -/
def lastFee (log : List Update) (initial : FeeRatePerKw) : FeeRatePerKw :=
  log.foldl (fun f u => u.fee?.getD f) initial

theorem offers_concat (log : List Update) (u : Update) :
    offers (log ++ [u]) = offers log ++ (offer? (u, log.length)).toList := by
  unfold offers
  rw [List.zipIdx_append, List.filterMap_append]
  cases h : offer? (u, log.length) <;> simp [h]

theorem removalOf_concat (log : List Update) (u : Update) (id : HtlcId) :
    removalOf (log ++ [u]) id = (removalOf log id).or (removal? id (u, log.length)) := by
  unfold removalOf
  rw [List.zipIdx_append, List.findSome?_append]
  simp

@[simp] theorem lastFee_concat (log : List Update) (u : Update) (f : FeeRatePerKw) :
    lastFee (log ++ [u]) f = u.fee?.getD (lastFee log f) := by
  simp [lastFee]

end Update

/-- An HTLC with its direction and the place of its removal in the log of the recipient. -/
structure Entry extends Offer where
  outbound : Bool
  onion : List UInt8
  source : Option HtlcSource
  removal : Option (Nat × HtlcResolution) := none
  deriving DecidableEq

namespace Entry

def key (e : Entry) : Bool × HtlcId := (e.outbound, e.id)

/-- Phase on the commitment an add reaches first, the recipient's. -/
def frontPhase (e : Entry) (lock gone removing : Nat) : HtlcPhase :=
  match e.removal with
  | none => if e.addAt < lock then .committed else .pending
  | some (j, _) => if j < gone then .gone else if j < removing then .removing else .committed

/-- Phase on the commitment an add reaches last, the offerer's. -/
def backPhase (e : Entry) (lock included gone : Nat) : HtlcPhase :=
  match e.removal with
  | none => if e.addAt < lock then .committed else if e.addAt < included then .pending else .notYet
  | some (j, _) => if j < gone then .gone else .removing

/-- The removal `r` at place `j`. -/
def resolve (e : Entry) (j : Nat) (r : HtlcResolution) : Entry := { e with removal := some (j, r) }

@[simp] theorem resolve_key (e : Entry) (j : Nat) (r : HtlcResolution) :
    (e.resolve j r).key = e.key := rfl

@[simp] theorem resolve_removal (e : Entry) (j : Nat) (r : HtlcResolution) :
    (e.resolve j r).removal = some (j, r) := rfl

@[simp] theorem resolve_toOffer (e : Entry) (j : Nat) (r : HtlcResolution) :
    (e.resolve j r).toOffer = e.toOffer := rfl

@[simp] theorem resolve_outbound (e : Entry) (j : Nat) (r : HtlcResolution) :
    (e.resolve j r).outbound = e.outbound := rfl

end Entry

structure Ledger where
  /-- The updates of each side, in order. -/
  log : Bool → List Update := fun _ => []
  /-- How many updates of each side the other has acknowledged: they may enter the commitment of
  the side that made them. -/
  acked : Bool → Nat := fun _ => 0
  /-- How many updates of each side are in that side's own current commitment. -/
  settled : Bool → Nat := fun _ => 0
  /-- How many of the peer's updates are in the last commitment we signed. -/
  signed : Nat := 0
  /-- Every HTLC, in the order of arrival. -/
  entries : List Entry := []

namespace Ledger

/-- The phase of an HTLC on our commitment (`side = true`) or on the peer's. -/
def phase (L : Ledger) (e : Entry) (side : Bool) : HtlcPhase :=
  if e.outbound = side then
    e.backPhase (L.settled e.outbound) (L.acked e.outbound) (L.acked !e.outbound)
  else e.frontPhase (L.acked e.outbound) (L.settled !e.outbound) (L.acked !e.outbound)

/-- Gone from both commitments: its effect is in the base balances. -/
def baked (L : Ledger) (e : Entry) : Bool := e.removal.any (·.1 < L.settled !e.outbound)

/-- The HTLC a channel keeps for a live entry. -/
def toHtlc (L : Ledger) (e : Entry) : Htlc where
  outbound := e.outbound
  id := e.id
  amountMsat := e.amountMsat
  paymentHash := e.paymentHash
  cltvExpiry := e.cltvExpiry
  onion := e.onion
  source := e.source
  resolution := e.removal.map (·.2)
  phaseHolder := L.phase e true
  phaseCounterparty := L.phase e false
  processed := !e.outbound && e.addAt < L.settled false

/-- The HTLCs a channel keeps. -/
def htlcs (L : Ledger) : List Htlc := (L.entries.filter fun e => !L.baked e).map L.toHtlc

/-- How far each log has come into a commitment of ours or the peer's: one's own updates enter
it once acknowledged, the other's at once. -/
def cut (L : Ledger) (side m : Bool) : Nat := if m = side then L.acked m else (L.log m).length

/-- The commitment of the peer we signed last adds it. -/
def entering (L : Ledger) (e : Entry) : Bool :=
  if e.outbound then L.acked true ≤ e.addAt else L.settled false ≤ e.addAt && e.addAt < L.signed

/-- The commitment of the peer we signed last drops it. -/
def leaving (L : Ledger) (e : Entry) : Bool :=
  e.removal.any fun x =>
    if e.outbound then L.settled false ≤ x.1 && x.1 < L.signed else L.acked true ≤ x.1

/-! ## Operations -/

/-- An update of side `m`. -/
def push (L : Ledger) (m : Bool) (u : Update) : Ledger :=
  { L with log := Function.update L.log m (L.log m ++ [u]) }

/-- Side `m` offers an HTLC. -/
def add (L : Ledger) (m : Bool) (id : HtlcId) (amountMsat : Msat) (paymentHash : PaymentHash)
    (cltvExpiry : Nat) (onion : List UInt8) (source : Option HtlcSource) : Ledger :=
  { L.push m (.add id amountMsat paymentHash cltvExpiry) with
    entries := L.entries ++
      [{ addAt := (L.log m).length, id, amountMsat, paymentHash, cltvExpiry, outbound := m, onion,
         source }] }

/-- Put the removal `r` at place `j` on the entry with key `k`. -/
def mark (es : List Entry) (k : Bool × HtlcId) (j : Nat) (r : HtlcResolution) : List Entry :=
  es.map fun e => if e.key = k then e.resolve j r else e

/-- Side `m` resolves an HTLC of the other side. -/
def remove (L : Ledger) (m : Bool) (id : HtlcId) (r : HtlcResolution) : Ledger :=
  { L.push m (.remove id r) with entries := mark L.entries (!m, id) (L.log m).length r }

/-- Sign the peer's next commitment. -/
def sign (L : Ledger) : Ledger := { L with signed := L.acked false }

/-- The peer revokes: it has acknowledged all we sent. -/
def revoke (L : Ledger) : Ledger :=
  { L with
    acked := Function.update L.acked true (L.log true).length
    settled := Function.update L.settled false L.signed }

/-- Our next commitment becomes current: we acknowledge all the peer sent. -/
def accept (L : Ledger) : Ledger :=
  { L with
    acked := Function.update L.acked false (L.log false).length
    settled := Function.update L.settled true (L.acked true) }

@[simp] theorem push_log_self (L : Ledger) (m : Bool) (u : Update) :
    (L.push m u).log m = L.log m ++ [u] := Function.update_self ..

@[simp] theorem push_log_not (L : Ledger) (m : Bool) (u : Update) :
    (L.push m u).log (!m) = L.log (!m) := Function.update_of_ne (by simp) ..

theorem push_log_le (L : Ledger) (m n : Bool) (u : Update) :
    (L.log n).length ≤ ((L.push m u).log n).length := by
  by_cases h : n = m
  · subst h; simp
  · obtain rfl : n = !m := by simpa [Bool.eq_not] using h
    simp

/-! ## Well-formedness -/

/-- The places of an entry: within the logs, and removed only after the add was locked on both
commitments. -/
structure EntryWf (L : Ledger) (e : Entry) : Prop where
  added : e.addAt < (L.log e.outbound).length
  removed : ∀ j r, e.removal = some (j, r) →
    j < (L.log !e.outbound).length ∧ e.addAt < L.settled e.outbound
  recorded : e.removal = Update.removalOf (L.log !e.outbound) e.id

/-- `a` arrived before `b`: if they have different directions, `b` was removed after `a` was
added. -/
def Before (a b : Entry) : Prop :=
  a.outbound ≠ b.outbound → ∀ j r, b.removal = some (j, r) → a.addAt < j

structure Wf (L : Ledger) : Prop where
  settled_le : ∀ m, L.settled m ≤ L.acked m
  acked_le : ∀ m, L.acked m ≤ (L.log m).length
  le_signed : L.settled false ≤ L.signed
  signed_le : L.signed ≤ L.acked false
  entry : ∀ e ∈ L.entries, L.EntryWf e
  keys : (L.entries.map Entry.key).Nodup
  order : L.entries.Pairwise Before
  offers : ∀ m, (L.entries.filter (·.outbound = m)).map Entry.toOffer = Update.offers (L.log m)
  known : ∀ m id r, .remove id r ∈ L.log m → (!m, id) ∈ L.entries.map Entry.key

theorem wf_empty : Wf {} where
  settled_le _ := Nat.le_refl _
  acked_le _ := Nat.le_refl _
  le_signed := Nat.le_refl _
  signed_le := Nat.le_refl _
  entry := by simp
  keys := by simp
  order := by simp
  offers _ := rfl
  known := by simp

@[simp] theorem mark_keys (es : List Entry) (k : Bool × HtlcId) (j : Nat) (r : HtlcResolution) :
    (mark es k j r).map Entry.key = es.map Entry.key := by
  unfold mark
  rw [List.map_map]
  refine List.map_congr_left fun e _ => ?_
  simp only [Function.comp_apply]
  split <;> rfl

/-- A removal changes neither the directions nor the offers. -/
theorem mark_offers (es : List Entry) (k : Bool × HtlcId) (j : Nat) (r : HtlcResolution)
    (m : Bool) : ((mark es k j r).filter (·.outbound = m)).map Entry.toOffer =
      (es.filter (·.outbound = m)).map Entry.toOffer := by
  unfold mark
  induction es with
  | nil => rfl
  | cons e es ih =>
    by_cases hk : e.key = k <;> by_cases hm : e.outbound = m <;> simp [hk, hm, ih]

/-- The log of the other side is not the one a removal goes to, unless the keys agree. -/
theorem removalOf_push_of_key_ne {L : Ledger} {m o : Bool} {id id' : HtlcId} {r : HtlcResolution}
    (h : (o, id') ≠ (!m, id)) :
    Update.removalOf ((L.push m (.remove id r)).log !o) id' =
      Update.removalOf (L.log !o) id' := by
  by_cases hm : (!o) = m
  · subst hm
    have hid : id ≠ id' := fun hid => h (by simp [hid])
    rw [push_log_self, Update.removalOf_concat]
    simp [Update.removal?, hid]
  · obtain rfl : o = m := by simpa [Bool.not_eq_eq_eq_not] using hm
    rw [push_log_not]

/-- Longer logs and larger counters keep the places of an entry. -/
theorem EntryWf.mono {L L' : Ledger} {e : Entry} (h : L.EntryWf e)
    (hlog : ∀ m, (L.log m).length ≤ (L'.log m).length) (hset : ∀ m, L.settled m ≤ L'.settled m)
    (hrec : Update.removalOf (L'.log !e.outbound) e.id = Update.removalOf (L.log !e.outbound) e.id) :
    L'.EntryWf e := by
  refine ⟨Nat.lt_of_lt_of_le h.added (hlog _), ?_, h.recorded.trans hrec.symm⟩
  intro j r hj
  obtain ⟨h1, h2⟩ := h.removed j r hj
  exact ⟨Nat.lt_of_lt_of_le h1 (hlog _), Nat.lt_of_lt_of_le h2 (hset _)⟩

/-- An update other than a removal leaves the removals as they are. -/
theorem removalOf_push {L : Ledger} {m : Bool} {u : Update} (hu : ∀ id r, u ≠ .remove id r)
    (o : Bool) (id : HtlcId) :
    Update.removalOf ((L.push m u).log o) id = Update.removalOf (L.log o) id := by
  by_cases h : o = m
  · subst h
    rw [push_log_self, Update.removalOf_concat]
    cases u with
    | remove id' r => exact absurd rfl (hu id' r)
    | _ => simp [Update.removal?]
  · obtain rfl : o = !m := by simpa [Bool.eq_not] using h
    rw [push_log_not]

theorem mem_push_log {L : Ledger} {m n : Bool} {u v : Update} (h : v ∈ (L.push m u).log n) :
    v ∈ L.log n ∨ n = m ∧ v = u := by
  by_cases hn : n = m
  · subst hn
    rw [push_log_self, List.mem_append, List.mem_singleton] at h
    exact h.imp id fun hv => ⟨rfl, hv⟩
  · obtain rfl : n = !m := by simpa [Bool.eq_not] using hn
    exact .inl (push_log_not L m u ▸ h)

namespace Wf

variable {L : Ledger}

theorem fee (h : Wf L) (m : Bool) (feerate : FeeRatePerKw) : Wf (L.push m (.fee feerate)) where
  settled_le := h.settled_le
  acked_le n := Nat.le_trans (h.acked_le n) (L.push_log_le m n _)
  le_signed := h.le_signed
  signed_le := h.signed_le
  entry e he := (h.entry e he).mono (L.push_log_le m · _) (fun _ => Nat.le_refl _)
    (removalOf_push (by simp) _ _)
  keys := h.keys
  order := h.order
  offers n := by
    refine (h.offers n).trans ?_
    by_cases hn : n = m
    · subst hn
      rw [push_log_self, Update.offers_concat]
      simp [Update.offer?]
    · obtain rfl : n = !m := by simpa [Bool.eq_not] using hn
      rw [push_log_not]
  known n id r hmem := by
    rcases mem_push_log hmem with hold | ⟨-, hu⟩
    · exact h.known n id r hold
    · cases hu

/-- A new HTLC, with an id the side has not used. -/
theorem add (h : Wf L) {m : Bool} {id : HtlcId} (hid : (m, id) ∉ L.entries.map Entry.key)
    (amountMsat : Msat) (paymentHash : PaymentHash) (cltvExpiry : Nat) (onion : List UInt8)
    (source : Option HtlcSource) :
    Wf (L.add m id amountMsat paymentHash cltvExpiry onion source) := by
  set e : Entry := ⟨⟨(L.log m).length, id, amountMsat, paymentHash, cltvExpiry⟩, m, onion, source,
    none⟩ with he
  set u : Update := .add id amountMsat paymentHash cltvExpiry with hu
  have hrem : ∀ o id', Update.removalOf ((L.push m u).log o) id' = Update.removalOf (L.log o) id' :=
    removalOf_push (by simp [hu])
  refine ⟨h.settled_le, fun n => Nat.le_trans (h.acked_le n) (L.push_log_le m n u), h.le_signed,
    h.signed_le, ?_, ?_, ?_, ?_, ?_⟩
  · intro e' he'
    rcases List.mem_append.1 he' with hold | hnew
    · exact (h.entry e' hold).mono (L.push_log_le m · u) (fun _ => Nat.le_refl _) (hrem _ _)
    · obtain rfl := List.mem_singleton.1 hnew
      refine ⟨?_, by simp, ?_⟩
      · show (L.log m).length < ((L.push m u).log m).length
        simp
      · -- The other side cannot have removed an HTLC that was not offered yet.
        show none = Update.removalOf ((L.push m u).log !m) id
        rw [hrem, Update.removalOf, eq_comm, List.findSome?_eq_none_iff]
        rintro ⟨v, j⟩ hv
        cases v with
        | remove id' r =>
          have hne : id' ≠ id := by
            rintro rfl
            exact hid (by simpa using h.known (!m) id' r (List.fst_mem_of_mem_zipIdx hv))
          simp [Update.removal?, hne]
        | _ => rfl
  · show ((L.entries ++ [e]).map Entry.key).Nodup
    rw [List.map_append, List.nodup_append]
    refine ⟨h.keys, by simp, ?_⟩
    intro a ha b hb hab
    obtain rfl : b = (m, id) := by simpa [he, Entry.key] using hb
    exact hid (hab ▸ ha)
  · show (L.entries ++ [e]).Pairwise Before
    rw [List.pairwise_append]
    refine ⟨h.order, by simp, ?_⟩
    intro a _ b hb _ j r hj
    obtain rfl := List.mem_singleton.1 hb
    cases hj
  · intro n
    show ((L.entries ++ [e]).filter (·.outbound = n)).map Entry.toOffer =
      Update.offers ((L.push m u).log n)
    rw [List.filter_append, List.map_append, h.offers n]
    by_cases hn : n = m
    · subst hn
      rw [push_log_self, Update.offers_concat]
      simp [he, hu, Update.offer?]
    · obtain rfl : n = !m := by simpa [Bool.eq_not] using hn
      rw [push_log_not]
      simp [he]
  · intro n id' r hmem
    show (!n, id') ∈ (L.entries ++ [e]).map Entry.key
    rw [List.map_append, List.mem_append]
    rcases mem_push_log hmem with hold | ⟨-, hv⟩
    · exact .inl (h.known n id' r hold)
    · cases hv

/-- A removal of an HTLC that is locked on both commitments and not removed. -/
theorem remove (h : Wf L) {m : Bool} {id : HtlcId} (r : HtlcResolution)
    (hid : (!m, id) ∈ L.entries.map Entry.key)
    (hlock : ∀ e ∈ L.entries, e.key = (!m, id) → e.removal = none ∧ e.addAt < L.settled !m) :
    Wf (L.remove m id r) := by
  set u : Update := .remove id r with hu
  set k : Bool × HtlcId := (!m, id) with hk
  refine ⟨h.settled_le, fun n => Nat.le_trans (h.acked_le n) (L.push_log_le m n u), h.le_signed,
    h.signed_le, ?_, ?_, ?_, ?_, ?_⟩
  · intro e' he'
    obtain ⟨e, he, rfl⟩ := List.mem_map.1 he'
    have hlen := L.push_log_le m (n := e.outbound) u
    split
    · next hek =>
      obtain ⟨hnone, hadd⟩ := hlock e he hek
      have hout : e.outbound = !m := congrArg Prod.fst hek
      have hid' : e.id = id := congrArg Prod.snd hek
      have hrec := (h.entry e he).recorded
      rw [hnone, hout, hid', Bool.not_not] at hrec
      refine ⟨Nat.lt_of_lt_of_le (h.entry e he).added hlen, ?_, ?_⟩
      · intro j r' hj
        obtain ⟨rfl, rfl⟩ := Prod.mk.inj (Option.some.inj hj)
        show (L.log m).length < ((L.push m u).log !e.outbound).length ∧ e.addAt < L.settled e.outbound
        rw [hout, Bool.not_not, push_log_self]
        exact ⟨by simp, hadd⟩
      · show some ((L.log m).length, r) = Update.removalOf ((L.push m u).log !e.outbound) e.id
        rw [hout, Bool.not_not, push_log_self, Update.removalOf_concat, hid', ← hrec]
        simp [Update.removal?, hu]
    · next hek =>
      exact (h.entry e he).mono (L.push_log_le m · u) (fun _ => Nat.le_refl _)
        (removalOf_push_of_key_ne hek)
  · show ((mark L.entries k (L.log m).length r).map Entry.key).Nodup
    rw [mark_keys]
    exact h.keys
  · show (mark L.entries k (L.log m).length r).Pairwise Before
    rw [mark, List.pairwise_map]
    refine h.order.imp_of_mem ?_
    intro a b ha _ hab hne j r' hj
    have hfix : ∀ e : Entry, (if e.key = k then e.resolve (L.log m).length r else e).addAt = e.addAt ∧
        (if e.key = k then e.resolve (L.log m).length r else e).outbound = e.outbound := by
      intro e
      split <;> exact ⟨rfl, rfl⟩
    rw [(hfix a).2, (hfix b).2] at hne
    rw [(hfix a).1]
    split at hj
    · next hbk =>
      -- The marked entry is removed at the end of the log that holds the add of `a`.
      obtain ⟨rfl, rfl⟩ := Prod.mk.inj (Option.some.inj hj)
      have hout : b.outbound = !m := congrArg Prod.fst hbk
      have ha' := (h.entry a ha).added
      rwa [show a.outbound = m by simpa [hout, Bool.eq_not] using hne] at ha'
    · exact hab hne j r' hj
  · intro n
    show ((mark L.entries k _ r).filter (·.outbound = n)).map Entry.toOffer =
      Update.offers ((L.push m u).log n)
    rw [mark_offers, h.offers n]
    by_cases hn : n = m
    · subst hn
      rw [push_log_self, Update.offers_concat]
      simp [hu, Update.offer?]
    · obtain rfl : n = !m := by simpa [Bool.eq_not] using hn
      rw [push_log_not]
  · intro n id' r' hmem
    show (!n, id') ∈ (mark L.entries k _ r).map Entry.key
    rw [mark_keys]
    rcases mem_push_log hmem with hold | ⟨rfl, hv⟩
    · exact h.known n id' r' hold
    · obtain ⟨rfl, -⟩ := Update.remove.inj hv
      exact hid

/-- Larger counters, with the same logs and entries. -/
theorem advance (h : Wf L) {acked settled : Bool → Nat} {signed : Nat}
    (hset : ∀ m, L.settled m ≤ settled m) (h1 : ∀ m, settled m ≤ acked m)
    (h2 : ∀ m, acked m ≤ (L.log m).length) (h3 : settled false ≤ signed)
    (h4 : signed ≤ acked false) : Wf { L with acked, settled, signed } where
  settled_le := h1
  acked_le := h2
  le_signed := h3
  signed_le := h4
  entry e he := (h.entry e he).mono (fun _ => Nat.le_refl _) hset rfl
  keys := h.keys
  order := h.order
  offers := h.offers
  known := h.known

theorem sign (h : Wf L) : Wf L.sign :=
  h.advance (fun _ => Nat.le_refl _) h.settled_le h.acked_le (Nat.le_trans h.le_signed h.signed_le)
    (Nat.le_refl _)

theorem revoke (h : Wf L) : Wf L.revoke := by
  have ht := Nat.le_trans (h.settled_le true) (h.acked_le true)
  refine h.advance ?_ ?_ ?_ ?_ ?_
  · intro m
    cases m <;> simp [h.le_signed]
  · intro m
    cases m <;> simp [h.signed_le, ht]
  · intro m
    cases m <;> simp [h.acked_le]
  · simp
  · simpa using h.signed_le

theorem accept (h : Wf L) : Wf L.accept := by
  have hf := Nat.le_trans (h.settled_le false) (h.acked_le false)
  have hs := Nat.le_trans h.signed_le (h.acked_le false)
  refine h.advance ?_ ?_ ?_ ?_ ?_
  · intro m
    cases m <;> simp [h.settled_le]
  · intro m
    cases m <;> simp [hf]
  · intro m
    cases m <;> simp [h.acked_le]
  · simpa using h.le_signed
  · simpa using hs

end Wf

end Ledger
