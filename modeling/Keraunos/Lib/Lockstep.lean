import Mathlib.Data.List.Basic
import Mathlib.Tactic.Common

/-!
# Two logs in lockstep

Two parties exchange updates over a link in each direction that neither loses nor reorders. Each
keeps the log of its own updates and of those it has heard. To sign commits the other party to all
that was sent and to all of its updates that were acknowledged; to accept a signature acknowledges
all that was heard and answers with a revocation; and a party that has signed waits for it.

`Joint` is the invariant of both parties and both links. What it is for: the state a party is committed
to is the one on record with the other (`Joint.record`), and when neither waits nor has anything to
sign, nothing is under way and both agree (`Joint.rest`).
-/

namespace Lockstep

variable {U : Type}

/-- What travels on a link. -/
inductive Beat (U : Type) where
  | update (u : U)
  | sign
  | revoke
  deriving DecidableEq

def Beat.update? : Beat U → Option U
  | .update u => some u
  | _ => none

def Beat.isRevoke : Beat U → Bool
  | .revoke => true
  | _ => false

/-- The number of revocations on a link. -/
def owed (w : List (Beat U)) : Nat := w.countP Beat.isRevoke

/-- The updates on a link. -/
def updates (w : List (Beat U)) : List U := w.filterMap Beat.update?

@[simp] theorem updates_nil : updates ([] : List (Beat U)) = [] := rfl

@[simp] theorem updates_append (w v : List (Beat U)) : updates (w ++ v) = updates w ++ updates v :=
  List.filterMap_append

@[simp] theorem updates_update (u : U) (w : List (Beat U)) :
    updates (.update u :: w) = u :: updates w := rfl

@[simp] theorem updates_sign (w : List (Beat U)) : updates (.sign :: w) = updates w := rfl

@[simp] theorem updates_revoke (w : List (Beat U)) : updates (.revoke :: w) = updates w := rfl

@[simp] theorem owed_append (w v : List (Beat U)) : owed (w ++ v) = owed w + owed v :=
  List.countP_append

@[simp] theorem owed_nil : owed ([] : List (Beat U)) = 0 := rfl

@[simp] theorem owed_update (u : U) (w : List (Beat U)) : owed (.update u :: w) = owed w :=
  List.countP_cons_of_neg (by simp [Beat.isRevoke])

@[simp] theorem owed_sign (w : List (Beat U)) : owed (.sign :: w) = owed w :=
  List.countP_cons_of_neg (by simp [Beat.isRevoke])

@[simp] theorem owed_revoke (w : List (Beat U)) : owed (.revoke :: w) = owed w + 1 :=
  List.countP_cons_of_pos rfl

theorem owed_eq_zero {w : List (Beat U)} (h : .revoke ∉ w) : owed w = 0 := by
  rw [owed, List.countP_eq_zero]
  intro x hx
  cases x with
  | revoke => exact absurd hx h
  | _ => simp [Beat.isRevoke]

/-- One party. Counters of updates are places in the two logs. -/
structure Party (U : Type) where
  own : List U := []
  theirs : List U := []
  /-- Our updates that the other party has acknowledged. -/
  ackedOwn : Nat := 0
  /-- Their updates that we have acknowledged. -/
  ackedTheirs : Nat := 0
  /-- Our updates in the state that they committed us to. -/
  settledOwn : Nat := 0
  /-- Their updates in the state that we committed them to, as far as they have revoked. -/
  settledTheirs : Nat := 0
  /-- Their updates in our last signature. -/
  signed : Nat := 0
  /-- The state that we are committed to. -/
  number : Nat := 0
  /-- The state that they are committed to, as far as they have revoked. -/
  theirNumber : Nat := 0
  /-- Our signature is not answered yet. -/
  awaiting : Bool := false
  /-- There is something to sign. -/
  dirty : Bool := false

namespace Party

variable (p : Party U)

/-- Send an update. -/
def push (u : U) : Party U := { p with own := p.own ++ [u], dirty := true }

def hear (u : U) : Party U := { p with theirs := p.theirs ++ [u] }

def sign : Party U := { p with signed := p.ackedTheirs, awaiting := true, dirty := false }

/-- Accept a signature; `news` when it makes something to sign. -/
def accept (news : Bool) : Party U :=
  { p with
    ackedTheirs := p.theirs.length
    settledOwn := p.ackedOwn
    number := p.number + 1
    dirty := p.dirty || news }

/-- Hear that the other party revoked. -/
def revoke : Party U :=
  { p with
    ackedOwn := p.own.length
    settledTheirs := p.signed
    theirNumber := p.theirNumber + 1
    awaiting := false }

end Party

/-- Where the signature of `s` is: `w` is the link from `s` to `r`, `v` the link back. -/
inductive Flight (s r : Party U) (w v : List (Beat U)) : Prop
  /-- Answered, or never sent. -/
  | idle : s.awaiting = false → .sign ∉ w → .revoke ∉ v → s.ackedOwn = r.ackedTheirs →
      s.settledTheirs = r.settledOwn → s.signed = s.settledTheirs → Flight s r w v
  /-- On its way, behind every update. -/
  | sent (xs ys : List (Beat U)) : s.awaiting = true → w = xs ++ .sign :: ys → .sign ∉ xs →
      .sign ∉ ys → updates ys = [] → .revoke ∉ v → s.ackedOwn = r.ackedTheirs →
      s.settledTheirs = r.settledOwn → (.revoke ∈ xs → s.signed = r.own.length) →
      (.revoke ∉ xs → s.signed = r.ackedOwn) → Flight s r w v
  /-- Accepted, the revocation on its way. -/
  | accepted (xs ys : List (Beat U)) : s.awaiting = true → .sign ∉ w → updates w = [] →
      v = xs ++ .revoke :: ys → .revoke ∉ xs → .revoke ∉ ys → r.ackedTheirs = s.own.length →
      s.signed = r.settledOwn → Flight s r w v

/-- The updates and the signature of `s`. -/
structure Sync (s r : Party U) (w v : List (Beat U)) : Prop where
  log : s.own = r.theirs ++ updates w
  flight : Flight s r w v
  /-- What is not signed is remembered. -/
  clean : s.awaiting = false → s.dirty = false → updates w = []
  number : r.number = s.theirNumber + owed v

/-- The invariant of the parties `a` and `b`, with `w` on the link from `a` to `b` and `v` back. -/
structure Joint (a b : Party U) (w v : List (Beat U)) : Prop where
  left : Sync a b w v
  right : Sync b a v w

variable {a b s r : Party U} {w v : List (Beat U)}

theorem joint_empty : Joint ({} : Party U) {} [] [] := by
  have h : Sync ({} : Party U) {} [] [] :=
    ⟨rfl, .idle rfl (by simp) (by simp) rfl rfl rfl, fun _ _ => rfl, rfl⟩
  exact ⟨h, h⟩

theorem Joint.symm (h : Joint a b w v) : Joint b a v w := ⟨h.right, h.left⟩

namespace Flight

/-- A signature on the link is still to be accepted. -/
theorem of_sign (h : Flight s r w v) (hw : .sign ∈ w) : ∃ xs ys, s.awaiting = true ∧
    w = xs ++ .sign :: ys ∧ .sign ∉ xs ∧ .sign ∉ ys ∧ updates ys = [] ∧ .revoke ∉ v ∧
    s.ackedOwn = r.ackedTheirs ∧ s.settledTheirs = r.settledOwn ∧
    (.revoke ∈ xs → s.signed = r.own.length) ∧ (.revoke ∉ xs → s.signed = r.ackedOwn) := by
  cases h with
  | idle _ hs => exact absurd hw hs
  | sent xs ys h1 h2 h3 h4 h5 h6 h7 h8 h9 h10 => exact ⟨xs, ys, h1, h2, h3, h4, h5, h6, h7, h8, h9, h10⟩
  | accepted _ _ _ hs => exact absurd hw hs

/-- A revocation on the link back answers the signature. -/
theorem of_revoke (h : Flight s r w v) (hv : .revoke ∈ v) : ∃ xs ys, s.awaiting = true ∧
    .sign ∉ w ∧ updates w = [] ∧ v = xs ++ .revoke :: ys ∧ .revoke ∉ xs ∧ .revoke ∉ ys ∧
    r.ackedTheirs = s.own.length ∧ s.signed = r.settledOwn := by
  cases h with
  | idle _ _ hr => exact absurd hv hr
  | sent _ _ _ _ _ _ _ hr => exact absurd hv hr
  | accepted xs ys h1 h2 h3 h4 h5 h6 h7 h8 => exact ⟨xs, ys, h1, h2, h3, h4, h5, h6, h7, h8⟩

/-- Without an answer on the link back, what was acknowledged is known. -/
theorem acked (h : Flight s r w v) (hv : .revoke ∉ v) : s.ackedOwn = r.ackedTheirs := by
  cases h with
  | idle _ _ _ hack => exact hack
  | sent _ _ _ _ _ _ _ _ hack => exact hack
  | accepted xs ys _ _ _ hvs => exact absurd (hvs ▸ by simp) hv

end Flight

/-! ## Steps -/

/-- A list that starts with something else than its mark goes on after its head. -/
theorem tail_of_ne {x y : Beat U} {xs ys : List (Beat U)} (h : x :: w = xs ++ y :: ys) (hne : x ≠ y) :
    ∃ xs', xs = x :: xs' ∧ w = xs' ++ y :: ys := by
  cases xs with
  | nil => exact absurd (List.cons.inj h).1 hne
  | cons x' xs' =>
    obtain ⟨rfl, hw⟩ := List.cons.inj h
    exact ⟨xs', rfl, hw⟩

/-- A party that does not wait for an answer sends an update. -/
theorem Joint.push (h : Joint s r w v) (ha : s.awaiting = false) (u : U) :
    Joint (s.push u) r (w ++ [.update u]) v := by
  obtain ⟨hv, hack⟩ : .revoke ∉ v ∧ s.ackedOwn = r.ackedTheirs := by
    cases h.left.flight with
    | idle _ _ hv hack => exact ⟨hv, hack⟩
    | sent _ _ ha' => cases ha.symm.trans ha'
    | accepted _ _ ha' => cases ha.symm.trans ha'
  refine ⟨⟨?_, ?_, fun _ hd => (by cases hd), h.left.number⟩,
    ⟨h.right.log, ?_, h.right.clean, by simpa [Party.push] using h.right.number⟩⟩
  · show s.own ++ [u] = _
    rw [h.left.log]
    simp
  · cases h.left.flight with
    | idle _ hs _ _ hset hsig => exact .idle ha (by simpa using hs) hv hack hset hsig
    | sent _ _ ha' => cases ha.symm.trans ha'
    | accepted _ _ ha' => cases ha.symm.trans ha'
  · cases h.right.flight with
    | idle hr hs hw hack' hset hsig => exact .idle hr hs (by simpa using hw) hack' hset hsig
    | sent xs ys hr hvs hx hy hu hw hack' hset _ hsig =>
      have hx' : .revoke ∉ xs := fun hmem => hv (hvs ▸ List.mem_append_left _ hmem)
      exact .sent xs ys hr hvs hx hy hu (by simpa using hw) hack' hset (fun hmem => absurd hmem hx') hsig
    | accepted xs ys hr hs hu hws hx hy hack' hsig =>
      refine .accepted xs (ys ++ [.update u]) hr hs hu ?_ hx (by simpa using hy) hack' hsig
      rw [hws, List.append_assoc]
      rfl

/-- A party that does not wait for an answer signs. -/
theorem Joint.sign (h : Joint s r w v) (ha : s.awaiting = false) :
    Joint s.sign r (w ++ [.sign]) v := by
  refine ⟨⟨?_, ?_, fun ha' => (by cases ha'), h.left.number⟩,
    ⟨h.right.log, ?_, h.right.clean, by simpa [Party.sign] using h.right.number⟩⟩
  · show s.own = _
    rw [h.left.log]
    simp
  · cases h.left.flight with
    | idle _ hs hv hack hset =>
      refine .sent w [] rfl rfl hs (by simp) rfl hv hack hset (fun hmem => ?_) fun hmem => ?_
      · obtain ⟨_, _, -, -, -, -, -, -, hall, -⟩ := h.right.flight.of_revoke hmem
        exact hall
      · exact (h.right.flight.acked hmem).symm
    | sent _ _ ha' => cases ha.symm.trans ha'
    | accepted _ _ ha' => cases ha.symm.trans ha'
  · cases h.right.flight with
    | idle hr hs hw hack hset hsig => exact .idle hr hs (by simpa using hw) hack hset hsig
    | sent xs ys hr hvs hx hy hu hw hack hset hone hsig =>
      exact .sent xs ys hr hvs hx hy hu (by simpa using hw) hack hset hone hsig
    | accepted xs ys hr hs hu hws hx hy hack hsig =>
      refine .accepted xs (ys ++ [.sign]) hr hs hu ?_ hx (by simpa using hy) hack hsig
      rw [hws, List.append_assoc]
      rfl

/-- The next update is heard. -/
theorem Joint.hear {u : U} (h : Joint s r (.update u :: w) v) : Joint s (r.hear u) w v := by
  refine ⟨⟨?_, ?_, fun ha hd => (by cases h.left.clean ha hd), h.left.number⟩,
    ⟨h.right.log, ?_, h.right.clean, by simpa [Party.hear] using h.right.number⟩⟩
  · show s.own = (r.theirs ++ [u]) ++ updates w
    rw [h.left.log]
    simp
  · cases h.left.flight with
    | idle ha hs hv hack hset hsig => exact .idle ha (fun hmem => hs (.tail _ hmem)) hv hack hset hsig
    | sent xs ys ha hws hx hy hu hv hack hset hone hsig =>
      obtain ⟨xs', rfl, hw⟩ := tail_of_ne hws (by simp)
      exact .sent xs' ys ha hw (fun hmem => hx (.tail _ hmem)) hy hu hv hack hset
        (fun hmem => hone (.tail _ hmem)) fun hmem => hsig (by simpa using hmem)
    | accepted _ _ _ _ hu => cases hu
  · cases h.right.flight with
    | idle hr hs hw hack hset hsig => exact .idle hr hs (fun hmem => hw (.tail _ hmem)) hack hset hsig
    | sent xs ys hr hvs hx hy hu hw hack hset hone hsig =>
      exact .sent xs ys hr hvs hx hy hu (fun hmem => hw (.tail _ hmem)) hack hset hone hsig
    | accepted xs ys hr hs hu hws hx hy hack hsig =>
      obtain ⟨xs', rfl, hw⟩ := tail_of_ne hws (by simp)
      exact .accepted xs' ys hr hs hu hw (fun hmem => hx (.tail _ hmem)) hy hack hsig

/-- The next signature is accepted and answered. -/
theorem Joint.accept (h : Joint s r (.sign :: w) v) (news : Bool) :
    Joint s (r.accept news) w (v ++ [.revoke]) := by
  obtain ⟨xs, ys, ha, hws, hx, hy, hu, hv, -, -, -, hsig⟩ := h.left.flight.of_sign (.head _)
  obtain rfl : xs = [] := by
    cases xs with
    | nil => rfl
    | cons x xs =>
      obtain ⟨rfl, -⟩ := List.cons.inj hws
      exact absurd (.head _) hx
  obtain rfl : w = ys := (List.cons.inj hws).2
  refine ⟨⟨h.left.log, ?_, fun ha' => (by cases ha.symm.trans ha'), ?_⟩, ⟨?_, ?_, fun hr hd => ?_, ?_⟩⟩
  · have hall : r.theirs.length = s.own.length := by
      rw [h.left.log]
      simp [hu]
    exact .accepted v [] ha hy hu rfl hv (by simp) hall (hsig (by simp))
  · have hnum := h.left.number
    simp only [Party.accept, owed_append, owed_revoke, owed_nil]
    omega
  · show r.own = _
    rw [h.right.log]
    simp
  · cases h.right.flight with
    | idle hr hs hw hack hset hsig =>
      exact .idle hr (by simpa using hs) (fun hmem => hw (.tail _ hmem)) hack hset hsig
    | sent xs ys hr hvs hx hy hu hw hack hset hone hsig =>
      refine .sent xs (ys ++ [.revoke]) hr ?_ hx (by simpa using hy) (by simpa using hu)
        (fun hmem => hw (.tail _ hmem)) hack hset hone hsig
      rw [hvs, List.append_assoc]
      rfl
    | accepted xs ys hr hs hu hws hx hy hack hsig =>
      obtain ⟨xs', rfl, hw⟩ := tail_of_ne hws (by simp)
      exact .accepted xs' ys hr (by simpa using hs) (by simpa using hu) hw
        (fun hmem => hx (.tail _ hmem)) hy hack hsig
  · obtain ⟨hd, -⟩ : r.dirty = false ∧ news = false := Bool.or_eq_false_iff.1 hd
    rw [updates_append, h.right.clean hr hd]
    rfl
  · simpa [Party.accept] using h.right.number

/-- The answer arrives. -/
theorem Joint.revoke (h : Joint s r (.revoke :: w) v) : Joint s r.revoke w v := by
  obtain ⟨xs, ys, -, hs, hu, hws, hx, hy, hall, hsig⟩ := h.right.flight.of_revoke (.head _)
  obtain rfl : xs = [] := by
    cases xs with
    | nil => rfl
    | cons x xs =>
      obtain ⟨rfl, -⟩ := List.cons.inj hws
      exact absurd (.head _) hx
  obtain rfl : w = ys := (List.cons.inj hws).2
  refine ⟨⟨h.left.log, ?_, h.left.clean, h.left.number⟩, ⟨h.right.log, ?_, fun _ _ => hu, ?_⟩⟩
  · cases h.left.flight with
    | idle ha hs hv hack hset hsig =>
      exact .idle ha (fun hmem => hs (.tail _ hmem)) hv hack hset hsig
    | sent xs zs ha hws hx hz hu hv hack hset hone hsig =>
      obtain ⟨xs', rfl, hw⟩ := tail_of_ne hws (by simp)
      -- The signature is behind the answer, so it covers all that was answered.
      have hcovers := hone (.head _)
      exact .sent xs' zs ha hw (fun hmem => hx (.tail _ hmem)) hz hu hv hack hset
        (fun _ => hcovers) fun _ => hcovers
    | accepted xs zs ha hs hu hvs hx hz hack hsig =>
      exact .accepted xs zs ha (fun hmem => hs (.tail _ hmem)) hu hvs hx hz hack hsig
  · exact .idle rfl hs hy hall.symm hsig rfl
  · have hnum := h.right.number
    simp only [owed_revoke] at hnum
    simp only [Party.revoke]
    omega

/-! ## What the invariant is for -/

/-- What was heard is the front of what was sent. -/
theorem Joint.heard (h : Joint s r w v) : r.theirs <+: s.own :=
  ⟨updates w, h.left.log.symm⟩

/-- No signature of an idle party is on its way. -/
theorem Joint.unsigned (h : Joint s r w v) (ha : s.awaiting = false) : .sign ∉ w := by
  cases h.left.flight with
  | idle _ hs => exact hs
  | sent _ _ ha' => cases ha.symm.trans ha'
  | accepted _ _ ha' => cases ha.symm.trans ha'

/-- A revocation answers the last signature, and is the only one. -/
theorem Joint.answered (h : Joint s r w (.revoke :: v)) :
    s.awaiting = true ∧ .sign ∉ w ∧ r.number = s.theirNumber + 1 := by
  obtain ⟨xs, ys, ha, hs, -, hvs, hx, hy, -⟩ := h.left.flight.of_revoke (.head _)
  have hnum := h.left.number
  rw [hvs, owed_append, owed_revoke, owed_eq_zero hx, owed_eq_zero hy] at hnum
  exact ⟨ha, hs, by omega⟩

/-- The signature that is next covers what both have by now. -/
theorem Joint.offered (h : Joint s r (.sign :: w) v) : s.awaiting = true ∧ r.theirs = s.own ∧
    s.signed = r.ackedOwn ∧ r.number = s.theirNumber := by
  obtain ⟨xs, ys, ha, hws, hx, -, hu, hv, -, -, -, hsig⟩ := h.left.flight.of_sign (.head _)
  obtain rfl : xs = [] := by
    cases xs with
    | nil => rfl
    | cons x xs =>
      obtain ⟨rfl, -⟩ := List.cons.inj hws
      exact absurd (.head _) hx
  obtain rfl : w = ys := (List.cons.inj hws).2
  have hlog := h.left.log
  have hnum := h.left.number
  rw [owed_eq_zero hv] at hnum
  rw [updates_sign, hu, List.append_nil] at hlog
  exact ⟨ha, hlog.symm, hsig (by simp), hnum⟩

/-- A signature is signed after the last revocation arrived. -/
theorem Joint.current (h : Joint s r w v) (hw : .sign ∈ w) : .revoke ∉ v := by
  obtain ⟨_, _, -, -, -, -, -, hv, -⟩ := h.left.flight.of_sign hw
  exact hv

/-- A state that the one has revoked up to is behind the other's own. -/
theorem Joint.settled_le (h : Joint s r w v) (hle : s.settledTheirs ≤ s.signed) :
    s.settledTheirs ≤ r.settledOwn := by
  cases h.left.flight with
  | idle _ _ _ _ hset => exact Nat.le_of_eq hset
  | sent _ _ _ _ _ _ _ _ _ hset => exact Nat.le_of_eq hset
  | accepted _ _ _ _ _ _ _ _ _ hsig => exact hsig ▸ hle

/-- The state that `r` is committed to is the one `s` has on record: the last that was revoked up to,
or the signed one if the revocation is on its way. -/
theorem Joint.record (h : Joint s r w v) :
    (s.ackedOwn = r.ackedTheirs ∧ s.settledTheirs = r.settledOwn ∧ r.number = s.theirNumber) ∨
    (s.awaiting = true ∧ r.ackedTheirs = s.own.length ∧ s.signed = r.settledOwn ∧
      r.number = s.theirNumber + 1) := by
  have hnum := h.left.number
  cases h.left.flight with
  | idle _ _ hv hack hset =>
    rw [owed_eq_zero hv] at hnum
    exact .inl ⟨hack, hset, hnum⟩
  | sent _ _ _ _ _ _ _ hv hack hset =>
    rw [owed_eq_zero hv] at hnum
    exact .inl ⟨hack, hset, hnum⟩
  | accepted xs ys ha _ _ hvs hx hy hack hsig =>
    rw [hvs, owed_append, owed_revoke, owed_eq_zero hx, owed_eq_zero hy] at hnum
    exact .inr ⟨ha, hack, hsig, by omega⟩

/-- Nothing is left to do. -/
structure Rest (s r : Party U) (w : List (Beat U)) : Prop where
  log : s.own = r.theirs
  acked : s.ackedOwn = r.ackedTheirs
  settled : s.settledTheirs = r.settledOwn
  number : r.number = s.theirNumber
  empty : w = []

/-- Neither waits nor has anything to sign: nothing is on the links, and both agree. -/
theorem Joint.rest (h : Joint s r w v) (hs : s.awaiting = false) (hd : s.dirty = false)
    (hr : r.awaiting = false) : Rest s r w := by
  have hw := h.left.clean hs hd
  have hlog : s.own = r.theirs := by simpa [hw] using h.left.log
  have hnum := h.left.number
  obtain ⟨hsign, hv, hack, hset⟩ :
      .sign ∉ w ∧ .revoke ∉ v ∧ s.ackedOwn = r.ackedTheirs ∧ s.settledTheirs = r.settledOwn := by
    cases h.left.flight with
    | idle _ hs hv hack hset => exact ⟨hs, hv, hack, hset⟩
    | sent _ _ ha => cases hs.symm.trans ha
    | accepted _ _ ha => cases hs.symm.trans ha
  have hrevoke : .revoke ∉ w := by
    cases h.right.flight with
    | idle _ _ hw => exact hw
    | sent _ _ ha => cases hr.symm.trans ha
    | accepted _ _ ha => cases hr.symm.trans ha
  rw [owed_eq_zero hv] at hnum
  refine ⟨hlog, hack, hset, hnum, ?_⟩
  cases w with
  | nil => rfl
  | cons b w =>
    cases b with
    | update u => cases hw
    | sign => exact absurd (.head _) hsign
    | revoke => exact absurd (.head _) hrevoke

end Lockstep
