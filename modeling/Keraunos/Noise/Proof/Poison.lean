import Keraunos.Noise.Proof.EndToEnd

/-!
# What a failed handshake leaves (`node/peer.rs`)

`Peer.input` takes the state of the handshake out before it processes an act and puts the next one
back after it. An act that is refused leaves the placeholder, which the next call meets, whatever it
is given: `panics_iff`. Everything else that comes in is survived, also by the transport.
-/

namespace Noise

variable {P : Primitives}

/-! ## Frames -/

theorem length_of_decrypt {key : Bytes32} {nonce : Vector UInt8 12} {aad ct plain : List UInt8}
    (h : decrypt P key nonce aad ct = some plain) : plain.length + 16 = ct.length := by
  unfold decrypt at h
  split at h
  · cases h
  · next hlong =>
    rw [Option.ite_none_right_eq_some] at h
    obtain rfl := Option.some.inj h.2
    rw [Bytes.length_xorInto, List.length_take]
    omega

namespace Transport

/-- The call may fail, but not panic. -/
abbrev Survives {α : Type} (x : Act NoiseError Transport α) (t : Transport) : Prop :=
  Act.wp x t (fun _ _ => True) fun e _ => e ≠ .panic

theorem nextBody_survives (len : Nat) (t : Transport) : Survives (nextBody P len) t := by
  simp only [Survives, nextBody, Act.wp_bind, Act.wp_get, Act.wp_ite, Act.wp_set, Act.wp_okOr,
    Act.wp_pure]
  exact ⟨fun _ => trivial, fun _ => ⟨fun _ _ => trivial, fun _ h => by cases h⟩⟩

/-- A decrypted length is two bytes long, whoever encrypted it. -/
theorem nextLength_survives {t : Transport} (hlong : 18 ≤ t.buffer.length) :
    Act.wp (nextLength P) t (fun _ t' => t'.pendingLen.isSome) fun e _ => e ≠ .panic := by
  simp only [nextLength, Act.wp_bind, Act.wp_get, Act.wp_set, Act.wp_okOr, Act.wp_expect]
  refine ⟨fun lenBytes hdec => ?_, fun _ h => by cases h⟩
  have hlen := length_of_decrypt hdec
  rw [List.length_take] at hlen
  rw [if_pos (show lenBytes.length = 2 by omega)]
  exact ⟨fun _ _ => rfl, fun h => by cases h⟩

theorem nextMessage_survives (t : Transport) : Survives (nextMessage P) t := by
  unfold Survives nextMessage
  rw [Act.wp_bind, Act.wp_get]
  cases t.pendingLen with
  | some len => exact nextBody_survives len t
  | none =>
    simp only [Act.wp_bind, Act.wp_get, Act.wp_ite, Act.wp_pure, Act.wp_expect]
    refine ⟨fun _ => trivial, fun hlong => ?_⟩
    refine Act.wp_mono (nextLength_survives (Nat.le_of_not_lt hlong)) ?_ fun _ _ he => he
    intro _ t' hsome
    refine ⟨fun len _ => nextBody_survives len t', fun hnone => ?_⟩
    rw [hnone] at hsome
    cases hsome

theorem nextMessages_survives (fuel : Nat) (t : Transport) : Survives (nextMessages P fuel) t := by
  induction fuel generalizing t with
  | zero => trivial
  | succ fuel ih =>
    rw [Survives, nextMessages, Act.wp_bind]
    refine Act.wp_mono (nextMessage_survives t) (fun popped t' _ => ?_) fun _ _ he => he
    cases popped with
    | none => trivial
    | some msg =>
      simp only [Act.wp_bind, Act.wp_pure]
      exact ih t'

theorem allMessages_survives (t : Transport) : Survives (allMessages P) t := by
  rw [Survives, allMessages, Act.wp_bind, Act.wp_get]
  exact nextMessages_survives _ t

end Transport

/-! ## Acts -/

theorem wp_liftErr {σ α : Type} {s : σ} {Q : α → σ → Prop} {E : Fault NoiseError → σ → Prop}
    (x : Except NoiseError α) :
    Act.wp (Act.lift (x.mapError .err)) s Q E ↔
      (∀ a, x = .ok a → Q a s) ∧ (∀ e, x = .error e → E (.err e) s) := by
  cases x <;> simp [Except.mapError]

theorem ok_of_elim_bind {α β : Type} {o : Option α} {e : NoiseError} {f : α → Except NoiseError β}
    {b : β} (h : (o.elim (throw e) pure >>= f) = .ok b) : ∃ a, f a = .ok b := by
  cases o with
  | none => cases h
  | some a => exact ⟨a, h⟩

/-- An initiator that accepted act 2 has its transport. -/
theorem Initiator.intoTransport_of_actTwo {i i' : Initiator} {act2 act3 : List UInt8}
    (h : i.actTwo P act2 = .ok (i', act3)) : ∃ t, i'.intoTransport P = .ok t := by
  unfold Initiator.actTwo at h
  split at h
  · cases h
  · obtain ⟨re, h⟩ := ok_of_elim_bind h
    obtain ⟨plain, h⟩ := ok_of_elim_bind h
    cases h
    exact ⟨_, rfl⟩

/-- A responder that accepted act 1 waits for act 3. -/
theorem Responder.actedOne_of_actOne {r r' : Responder} {act1 act2 : List UInt8}
    (h : r.actOne P act1 = .ok (r', act2)) : r'.actedOne = true := by
  unfold Responder.actOne at h
  split at h
  · cases h
  · obtain ⟨re, h⟩ := ok_of_elim_bind h
    obtain ⟨plain, h⟩ := ok_of_elim_bind h
    cases h
    rfl

/-! ## Chunks -/

section
variable (P)

/-- The bytes hold an act 3 that is refused. -/
def Responder.refusesThree (r : Responder) (bytes : List UInt8) : Bool :=
  actThreeLen ≤ bytes.length && !(r.actThree P (bytes.take actThreeLen)).isOk

/-- The bytes hold an act that is refused. -/
def PeerTransport.refuses (bytes : List UInt8) : PeerTransport → Bool
  | .outboundHandshake init =>
    actTwoLen ≤ bytes.length && !(init.actTwo P (bytes.take actTwoLen)).isOk
  | .inboundHandshake resp =>
    if resp.actedOne then resp.refusesThree P bytes
    else
      actOneLen ≤ bytes.length &&
        match resp.actOne P (bytes.take actOneLen) with
        | .ok (resp, _) => resp.refusesThree P (bytes.drop actOneLen)
        | .error _ => true
  | .ready _ => false
  | .poisoned => true

namespace Peer

/-- A peer as `new_outbound` and `new_inbound` make it. -/
inductive Created : Peer → Prop
  | outbound (initiator : Initiator) (remote : PublicKey) : Created (newOutbound initiator remote)
  | inbound (responder : Responder) : Created (newInbound responder)

/-- Some call panics when the chunks are fed one by one, whatever the calls before it returned. -/
def panics : Peer → List (List UInt8) → Bool
  | _, [] => false
  | p, data :: chunks =>
    match input P data p with
    | .ok _ p' => panics p' chunks
    | .error (.err _) p' => panics p' chunks
    | .error .panic _ => true

/-- With `bytes`, the handshake meets an act that is refused. -/
def refuses (p : Peer) (bytes : List UInt8) : Bool := p.transport.refuses P (p.handshakeBuf ++ bytes)

/-- What a call with `data` makes of a peer: it has processed every act it can, and is as far from a
refused act as it was. -/
structure Fed (p : Peer) (data : List UInt8) (p' : Peer) : Prop where
  refuses : ∀ rest, p'.refuses P rest = p.refuses P (data ++ rest)
  poisoned : p'.refuses P [] = true → p'.transport = .poisoned

end Peer

end

namespace Peer

variable {p p' : Peer} {data : List UInt8}

theorem inputReady_survives (t : Transport) :
    Act.wp (inputReady P t data) p (fun _ p' => ∃ t', p'.transport = .ready t')
      fun e p' => e ≠ .panic ∧ ∃ t', p'.transport = .ready t' := by
  have hall := Transport.allMessages_survives (P := P) (t.readInput data)
  unfold Act.wp inputReady
  cases hrun : Transport.allMessages P (t.readInput data) with
  | ok msgs t' => exact ⟨t', rfl⟩
  | error e t' => exact ⟨Act.wp_error (E := fun e _ => e ≠ .panic) hall hrun, t', rfl⟩

/-- Once in the transport, nothing is refused any more. -/
theorem Fed.of_ready (hready : ∃ t, p'.transport = .ready t)
    (h : ∀ rest, p.refuses P (data ++ rest) = false) : Fed P p data p' := by
  obtain ⟨t, ht⟩ := hready
  have hfalse : ∀ rest, p'.refuses P rest = false := by
    intro rest
    rw [Peer.refuses, ht, PeerTransport.refuses]
  exact ⟨fun rest => (hfalse rest).trans (h rest).symm, fun htrue => by simp [hfalse] at htrue⟩

/-- The placeholder refuses whatever comes. -/
theorem Fed.of_poisoned (hp : p'.transport = .poisoned)
    (h : ∀ rest, p.refuses P (data ++ rest) = true) : Fed P p data p' :=
  ⟨fun rest => by rw [h, Peer.refuses, hp, PeerTransport.refuses], fun _ => hp⟩

/-- More bytes change nothing in an act that is there. -/
theorem refuses_act {len : Nat} {buf : List UInt8} (h : ¬ buf.length < len) (rest : List UInt8)
    (accepts : List UInt8 → Bool) :
    (decide (len ≤ (buf ++ rest).length) && !accepts ((buf ++ rest).take len)) =
      !accepts (buf.take len) := by
  have hlen : len ≤ buf.length := Nat.le_of_not_lt h
  rw [List.take_append_of_le_length hlen, List.length_append, decide_eq_true (by omega),
    Bool.true_and]

/-- An act that is not there is not refused. -/
theorem not_refuses_act {len : Nat} {buf : List UInt8} (h : buf.length < len) (b : Bool) :
    (decide (len ≤ buf.length) && b) = false := by
  rw [decide_eq_false (Nat.not_le_of_lt h), Bool.false_and]

theorem inputOutbound_fed {init : Initiator} (hp : p.transport = .outboundHandshake init) :
    Act.wp (inputOutbound P init data) p (fun _ p' => Fed P p data p')
      fun e p' => e ≠ .panic ∧ Fed P p data p' := by
  have hrefuses : ∀ rest, p.refuses P (data ++ rest) =
      (PeerTransport.outboundHandshake init).refuses P (p.handshakeBuf ++ data ++ rest) := by
    intro rest
    rw [Peer.refuses, hp, List.append_assoc]
  simp only [inputOutbound, Act.wp_bind, Act.wp_modify, Act.wp_get, Act.wp_ite, Act.wp_pure,
    wp_liftErr]
  refine ⟨fun hshort => ⟨fun rest => ?_, fun htrue => ?_⟩, fun hlong => ⟨?_, ?_⟩⟩
  · rw [hrefuses, Peer.refuses, hp]
  · rw [Peer.refuses, hp, PeerTransport.refuses, List.append_nil, not_refuses_act hshort] at htrue
    cases htrue
  · rintro ⟨init', act3⟩ htwo
    have haccepts : ∀ rest, p.refuses P (data ++ rest) = false := by
      intro rest
      rw [hrefuses, PeerTransport.refuses, refuses_act hlong rest fun act => (init.actTwo P act).isOk,
        htwo]
      rfl
    obtain ⟨t, ht⟩ := Initiator.intoTransport_of_actTwo htwo
    refine ⟨fun t' _ => ?_, fun e he => by cases ht.symm.trans he⟩
    exact Act.wp_mono (inputReady_survives _) (fun _ p' hready => Fed.of_ready hready haccepts)
      fun e p' h => ⟨h.1, Fed.of_ready h.2 haccepts⟩
  · intro e htwo
    refine ⟨fun h => (by cases h), Fed.of_poisoned rfl fun rest => ?_⟩
    rw [hrefuses, PeerTransport.refuses, refuses_act hlong rest fun act => (init.actTwo P act).isOk,
      htwo]
    rfl

/-- Act 3, on the bytes behind act 1. -/
theorem inputActThree_fed {resp : Responder} {toSend : List (List UInt8)} {q : Peer}
    (hq : q.transport = .inboundHandshake resp) (hacted : resp.actedOne = true)
    (hrefuses : ∀ rest, p.refuses P (data ++ rest) = resp.refusesThree P (q.handshakeBuf ++ rest)) :
    Act.wp (inputActThree P resp toSend) q (fun _ p' => Fed P p data p')
      fun e p' => e ≠ .panic ∧ Fed P p data p' := by
  simp only [inputActThree, Act.wp_bind, Act.wp_modify, Act.wp_get, Act.wp_ite, Act.wp_pure,
    wp_liftErr]
  have hsame : ∀ rest, q.refuses P rest = resp.refusesThree P (q.handshakeBuf ++ rest) := by
    intro rest
    rw [Peer.refuses, hq, PeerTransport.refuses, if_pos hacted]
  refine ⟨fun hshort => ⟨fun rest => ?_, fun htrue => ?_⟩, fun hlong => ⟨?_, ?_⟩⟩
  · rw [hsame, hrefuses]
  · rw [hsame, Responder.refusesThree, List.append_nil, not_refuses_act hshort] at htrue
    cases htrue
  · rintro ⟨remoteId, t⟩ hthree
    have haccepts : ∀ rest, p.refuses P (data ++ rest) = false := by
      intro rest
      rw [hrefuses, Responder.refusesThree,
        refuses_act hlong rest fun act => (resp.actThree P act).isOk, hthree]
      rfl
    exact Act.wp_mono (inputReady_survives _) (fun _ p' hready => Fed.of_ready hready haccepts)
      fun e p' h => ⟨h.1, Fed.of_ready h.2 haccepts⟩
  · intro e hthree
    refine ⟨fun h => (by cases h), Fed.of_poisoned rfl fun rest => ?_⟩
    rw [hrefuses, Responder.refusesThree,
      refuses_act hlong rest fun act => (resp.actThree P act).isOk, hthree]
    rfl

theorem inputInbound_fed {resp : Responder} (hp : p.transport = .inboundHandshake resp) :
    Act.wp (inputInbound P resp data) p (fun _ p' => Fed P p data p')
      fun e p' => e ≠ .panic ∧ Fed P p data p' := by
  have hrefuses : ∀ rest, p.refuses P (data ++ rest) =
      (PeerTransport.inboundHandshake resp).refuses P (p.handshakeBuf ++ data ++ rest) := by
    intro rest
    rw [Peer.refuses, hp, List.append_assoc]
  simp only [inputInbound, Act.wp_bind, Act.wp_modify, Act.wp_get, Act.wp_ite, Act.wp_pure,
    wp_liftErr]
  refine ⟨fun hacted => ?_, fun hacted => ⟨fun hshort => ⟨fun rest => ?_, fun htrue => ?_⟩, fun hlong => ⟨?_, ?_⟩⟩⟩
  · refine inputActThree_fed hp hacted fun rest => ?_
    rw [hrefuses, PeerTransport.refuses, if_pos hacted]
  · rw [hrefuses, Peer.refuses, hp]
  · rw [Peer.refuses, hp, PeerTransport.refuses, if_neg hacted, List.append_nil,
      not_refuses_act hshort] at htrue
    cases htrue
  · rintro ⟨resp', act2⟩ hone
    refine inputActThree_fed rfl (Responder.actedOne_of_actOne hone) fun rest => ?_
    have henough := Nat.le_of_not_lt hlong
    rw [hrefuses, PeerTransport.refuses, if_neg hacted, List.take_append_of_le_length henough, hone,
      List.drop_append_of_le_length henough, List.length_append, decide_eq_true (by omega),
      Bool.true_and]
  · intro e hone
    refine ⟨fun h => (by cases h), Fed.of_poisoned rfl fun rest => ?_⟩
    have henough := Nat.le_of_not_lt hlong
    rw [hrefuses, PeerTransport.refuses, if_neg hacted, List.take_append_of_le_length henough, hone,
      List.length_append, decide_eq_true (by omega), Bool.true_and]

/-- A call on a peer that is not the placeholder. -/
theorem input_fed (hp : p.transport ≠ .poisoned) (data : List UInt8) :
    Act.wp (input P data) p (fun _ p' => Fed P p data p')
      fun e p' => e ≠ .panic ∧ Fed P p data p' := by
  rw [input, Act.wp_bind, Act.wp_get]
  cases htransport : p.transport with
  | outboundHandshake init => exact inputOutbound_fed htransport
  | inboundHandshake resp => exact inputInbound_fed htransport
  | poisoned => exact absurd htransport hp
  | ready t =>
    have haccepts : ∀ rest, p.refuses P (data ++ rest) = false := by
      intro rest
      rw [Peer.refuses, htransport, PeerTransport.refuses]
    simp only [Act.wp_bind, Act.wp_pure]
    exact Act.wp_mono (inputReady_survives t) (fun _ p' hready => Fed.of_ready hready haccepts)
      fun e p' h => ⟨h.1, Fed.of_ready h.2 haccepts⟩

/-- What the calls leave decides the rest of them. -/
theorem panics_cons (hp : p.transport ≠ .poisoned) (data : List UInt8) (chunks : List (List UInt8)) :
    ∃ p', Fed P p data p' ∧ p.panics P (data :: chunks) = p'.panics P chunks := by
  have hfed := input_fed (P := P) hp data
  rw [panics]
  unfold Act.wp at hfed
  cases hrun : input P data p with
  | ok out p' =>
    rw [hrun] at hfed
    exact ⟨p', hfed, rfl⟩
  | error e p' =>
    rw [hrun] at hfed
    cases e with
    | err e => exact ⟨p', hfed.2, rfl⟩
    | panic => exact absurd rfl hfed.1

/-- A call panics when the calls before it were given a refused act. -/
theorem panics_eq (chunks : List (List UInt8)) (hp : p.refuses P [] = true → p.transport = .poisoned) :
    p.panics P chunks = (!chunks.isEmpty && p.refuses P chunks.dropLast.flatten) := by
  induction chunks generalizing p with
  | nil => rfl
  | cons data chunks ih =>
    by_cases hpoisoned : p.transport = .poisoned
    · have hpanic : input P data p = .error .panic p := by
        unfold input
        exact (Act.bind_of_ok rfl).trans (by rw [hpoisoned]; rfl)
      rw [panics, hpanic, Peer.refuses, hpoisoned]
      rfl
    · obtain ⟨p', hfed, hrest⟩ := panics_cons (P := P) hpoisoned data chunks
      rw [hrest, ih hfed.poisoned]
      cases chunks with
      | nil =>
        have hnot : p.refuses P [] = false := Bool.eq_false_iff.2 fun htrue => hpoisoned (hp htrue)
        exact hnot.symm
      | cons data' chunks =>
        rw [hfed.refuses]
        rfl

/-- Chunks panic a new peer exactly when the bytes of all of them but the last hold an act of the
handshake that is refused. -/
theorem panics_iff (hp : Created p) (chunks : List (List UInt8)) :
    p.panics P chunks = false ↔ p.transport.refuses P chunks.dropLast.flatten = false := by
  have hbuf : p.handshakeBuf = [] := by cases hp <;> rfl
  have hnil : p.transport.refuses P [] = false := by
    cases hp with
    | outbound => rfl
    | inbound resp =>
      show (if resp.actedOne then false else false) = false
      rw [ite_self]
  have hempty : p.refuses P [] = false := by
    rw [Peer.refuses, hbuf]
    exact hnil
  rw [panics_eq chunks fun htrue => nomatch hempty.symm.trans htrue]
  cases chunks with
  | nil => exact iff_of_true rfl hnil
  | cons data chunks =>
    rw [List.isEmpty_cons, Bool.not_false, Bool.true_and, Peer.refuses, hbuf, List.nil_append]

/-- The accepting side, before the first byte. -/
def Demo.listening : Peer :=
  newInbound (.new Noise.Demo.primitives (Noise.Demo.secret 3) (Noise.Demo.secret 4))

theorem panics_demo :
    Demo.listening.panics Noise.Demo.primitives [List.replicate 49 1, []] = false :=
  (panics_iff (.inbound _) _).2 (by decide +kernel)

/-- An act 1 of another version, then the next chunk, although nothing is in it. -/
theorem panics_after_error : ¬ ∀ p : Peer, Created p → ∀ chunks : List (List UInt8),
    p.panics Noise.Demo.primitives chunks = false := by
  intro hsafe
  have hpanics : Demo.listening.panics Noise.Demo.primitives [List.replicate 50 1, []] = true := by
    decide +kernel
  exact absurd (hsafe Demo.listening (.inbound _) _) (by rw [hpanics]; decide)

end Peer

end Noise
