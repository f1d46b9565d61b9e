import Keraunos.Noise.Link
import Keraunos.Noise.Proof.Handshake

/-!
# The connection end to end

`Phase`: where a connection can be, by what has arrived of the three acts, and what each side expects
of the bytes in flight. Every step keeps it, however the streams are cut (`Phase.deliver`,
`Phase.send`), so messages arrive as they were sent, and once nothing is in flight all have
(`end_to_end`).
-/

namespace Noise

variable {P : Primitives} {p : Peer} {data rest : List UInt8} {msgs : List (List UInt8)}
  {c : CipherState} {t : Transport}

/-! ## One peer -/

namespace Peer

theorem inputReady_reads (h : t.Expects P (data ++ rest) msgs c) (p : Peer) :
    Act.wp (inputReady P t data) p
      (fun read p' => ∃ t', p' = { p with transport := .ready t' } ∧
        (t.readInput data).Reads P rest msgs c read t') fun _ _ => False := by
  have hread := Transport.allMessages_reads h
  unfold Act.wp inputReady at *
  cases hx : Transport.allMessages P (t.readInput data) with
  | ok read t' =>
    rw [hx] at hread
    exact ⟨t', rfl, hread⟩
  | error e t' =>
    rw [hx] at hread
    exact hread

theorem input_ready (hp : p.transport = .ready t) (h : t.Expects P (data ++ rest) msgs c) :
    Act.wp (input P data) p
      (fun o p' => o.1 = [] ∧ ∃ t', p' = { p with transport := .ready t' } ∧
        (t.readInput data).Reads P rest msgs c o.2 t') fun _ _ => False := by
  simp only [input, Act.wp_bind, Act.wp_get, hp, Act.wp_pure]
  exact Act.wp_mono (inputReady_reads h p) (fun _ _ hr => ⟨trivial, hr⟩) fun _ _ hf => hf

theorem encrypt_ready (hp : p.transport = .ready t) (msg : List UInt8) :
    Act.wp (encrypt P msg) p
      (fun bytes p' => msg.length ≤ maxMsgLen ∧ bytes = frame P t.send msg ∧
        p' = { p with transport := .ready { t with send := t.send.nextFrame P } })
      fun e p' => e ≠ .panic ∧ maxMsgLen < msg.length ∧ p' = p := by
  unfold Act.wp
  by_cases hm : msg.length ≤ maxMsgLen
  · simp only [encrypt, hp, encryptMessage_eq t hm]
    exact ⟨hm, trivial, trivial⟩
  · have hfail : Transport.encryptMessage P msg t = .error (.err .messageTooLong) t := by
      unfold Transport.encryptMessage
      rw [if_pos (Nat.lt_of_not_le hm)]
      rfl
    simp only [encrypt, hp, hfail]
    refine ⟨nofun, Nat.lt_of_not_le hm, ?_⟩
    rw [← hp]

/-- Before the handshake is complete there is nothing to encrypt with. -/
theorem encrypt_handshake (hp : p.isTransport = false) (msg : List UInt8) :
    encrypt P msg p = .error (.err .wrongState) p := by
  unfold encrypt
  cases ht : p.transport with
  | ready t =>
    rw [isTransport, ht] at hp
    cases hp
  | _ => rfl

/-! ### Handshake -/

theorem mapError_ok {α : Type} {x : Except NoiseError α} {a : α} (h : x = .ok a) :
    x.mapError Fault.err = .ok a := by
  rw [h]
  rfl

section
variable {ls e ls' e' : SecretKey} (H : Mirrors P ls e ls' e')

/-- Too few bytes for the act that is awaited. -/
structure Waits (p : Peer) (data : List UInt8) (o : PeerInput) (p' : Peer) : Prop where
  nothing : o = ([], [])
  buffered : p' = { p with handshakeBuf := p.handshakeBuf ++ data }

theorem input_actTwo_short {init : Initiator} (hp : p.transport = .outboundHandshake init)
    (hshort : (p.handshakeBuf ++ data).length < actTwoLen) :
    Act.wp (input P data) p (Waits p data) fun _ _ => False := by
  simp only [input, inputOutbound, Act.wp_bind, Act.wp_get, Act.wp_modify, Act.wp_ite, Act.wp_pure, hp]
  exact ⟨fun _ => ⟨rfl, by rw [hp]⟩, fun hn => absurd hshort hn⟩

theorem input_actOne_short {resp : Responder} (hp : p.transport = .inboundHandshake resp)
    (hacted : resp.actedOne = false) (hshort : (p.handshakeBuf ++ data).length < actOneLen) :
    Act.wp (input P data) p (Waits p data) fun _ _ => False := by
  simp only [input, inputInbound, Act.wp_bind, Act.wp_get, Act.wp_modify, Act.wp_ite, Act.wp_pure, hp,
    hacted]
  exact ⟨fun h => (by cases h), fun _ => ⟨fun _ => ⟨rfl, by rw [hp]⟩, fun hn => absurd hshort hn⟩⟩

theorem input_actThree_short {resp : Responder} (hp : p.transport = .inboundHandshake resp)
    (hacted : resp.actedOne = true) (hshort : (p.handshakeBuf ++ data).length < actThreeLen) :
    Act.wp (input P data) p (Waits p data) fun _ _ => False := by
  simp only [input, inputInbound, inputActThree, Act.wp_bind, Act.wp_get, Act.wp_modify, Act.wp_ite,
    Act.wp_pure, hp, hacted]
  exact ⟨fun _ => ⟨fun _ => ⟨rfl, by rw [hp]⟩, fun hn => absurd hshort hn⟩, fun hn => absurd trivial hn⟩

/-- With act 1 the responder answers and waits for act 3. -/
theorem input_actOne (hp : p.transport = .inboundHandshake (.new P ls' e'))
    (hact : p.handshakeBuf ++ data = H.act1) :
    Act.wp (input P data) p (fun o p' => o = ([H.act2], []) ∧
      p' = { p with transport := .inboundHandshake H.responder, handshakeBuf := [] })
      fun _ _ => False := by
  have hacted : (Responder.new P ls' e').actedOne = false := rfl
  have hlen : ¬ H.act1.length < actOneLen := by rw [H.length_act1]; exact Nat.lt_irrefl _
  have hall : H.act1.take actOneLen = H.act1 := List.take_of_length_le (Nat.le_of_eq H.length_act1)
  have hnil : H.act1.drop actOneLen = [] := List.drop_of_length_le (Nat.le_of_eq H.length_act1)
  simp only [input, inputInbound, inputActThree, Act.wp_bind, Act.wp_get, Act.wp_modify, Act.wp_ite,
    Act.wp_pure, Act.wp_lift, hp, hacted, hact, hall, hnil, mapError_ok H.respond]
  refine ⟨fun h => (by cases h), fun _ => ⟨fun hshort => absurd hshort hlen, fun _ => ⟨fun x hx => ?_, fun _ h => by cases h⟩⟩⟩
  obtain rfl := Except.ok.inj hx
  exact ⟨fun _ => ⟨rfl, rfl⟩, fun hn => absurd (by decide) hn⟩

/-- With act 2 the initiator answers and is ready. -/
theorem input_actTwo (hp : p.transport = .outboundHandshake H.initiator)
    (hact : p.handshakeBuf ++ data = H.act2) :
    Act.wp (input P data) p (fun o p' => o = ([H.act3], []) ∧ ∃ t,
      p'.transport = .ready t ∧ t.Expects P [] [] ⟨H.rk, H.ck, 0⟩ ∧ t.send = ⟨H.sk, H.ck, 0⟩)
      fun _ _ => False := by
  have hlen : ¬ H.act2.length < actTwoLen := by rw [H.length_act2]; exact Nat.lt_irrefl _
  have hall : H.act2.take actTwoLen = H.act2 := List.take_of_length_le (Nat.le_of_eq H.length_act2)
  have hnil : H.act2.drop actTwoLen = [] := List.drop_of_length_le (Nat.le_of_eq H.length_act2)
  have hnew : (Transport.new H.ck H.sk H.rk).Expects P ([] ++ []) [] ⟨H.rk, H.ck, 0⟩ :=
    .start rfl (.nil _)
  have hread : ((Transport.new H.ck H.sk H.rk).readInput []).Expects P ([] ++ []) [] ⟨H.rk, H.ck, 0⟩ :=
    hnew.readInput
  simp only [input, inputOutbound, Act.wp_bind, Act.wp_get, Act.wp_modify, Act.wp_ite, Act.wp_pure,
    Act.wp_lift, hp, hact, hall, hnil, mapError_ok H.actTwo]
  refine ⟨fun hshort => absurd hshort hlen, fun _ => ⟨fun x hx => ?_, fun _ h => by cases h⟩⟩
  obtain rfl := Except.ok.inj hx
  simp only [mapError_ok H.intoTransport]
  refine ⟨fun x hx => ?_, fun _ h => by cases h⟩
  obtain rfl := Except.ok.inj hx
  refine Act.wp_mono (inputReady_reads hread _) ?_ fun _ _ hf => hf
  intro read p' hr
  obtain ⟨t', rfl, hsend, msgs', hread, hexp, -⟩ := hr
  obtain ⟨rfl, rfl⟩ := List.append_eq_nil_iff.1 hread.symm
  exact ⟨rfl, t', rfl, hexp, hsend⟩

/-- With act 3 the responder knows the initiator and reads what follows. -/
theorem input_actThree (hp : p.transport = .inboundHandshake H.responder) {bytes : List UInt8}
    (hact : p.handshakeBuf ++ data ++ rest = H.act3 ++ bytes)
    (hlen : actThreeLen ≤ (p.handshakeBuf ++ data).length)
    (hd : Decodes P ⟨H.sk, H.ck, 0⟩ bytes msgs c) :
    Act.wp (input P data) p (fun o p' => o.1 = [] ∧ p'.nodeId = some (P.C.publicKey ls) ∧
      ∃ t, p'.transport = .ready t ∧ t.send = ⟨H.rk, H.ck, 0⟩ ∧
      ∃ msgs', msgs = o.2 ++ msgs' ∧ t.Expects P rest msgs' c ∧ (rest = [] → msgs' = []))
      fun _ _ => False := by
  obtain ⟨tail, htail⟩ : H.act3 <+: p.handshakeBuf ++ data :=
    List.prefix_of_prefix_length_le ⟨bytes, hact.symm⟩ ⟨rest, rfl⟩ (H.length_act3 ▸ hlen)
  have htake : (p.handshakeBuf ++ data).take actThreeLen = H.act3 := by
    rw [← htail, List.take_left' H.length_act3]
  have hdrop : (p.handshakeBuf ++ data).drop actThreeLen = tail := by
    rw [← htail, List.drop_left' H.length_act3]
  have hbytes : tail ++ rest = bytes := by
    rw [← htail, List.append_assoc] at hact
    exact List.append_cancel_left hact
  have hnew : (Transport.new H.ck H.rk H.sk).Expects P (tail ++ rest) msgs c :=
    .start rfl (hbytes.symm ▸ hd)
  have hread : ((Transport.new H.ck H.rk H.sk).readInput tail).Expects P ([] ++ rest) msgs c :=
    hnew.readInput
  simp only [input, inputInbound, inputActThree, Act.wp_bind, Act.wp_get, Act.wp_modify, Act.wp_ite,
    Act.wp_pure, Act.wp_lift, hp, H.actedOne, htake, hdrop, mapError_ok H.actThree]
  refine ⟨fun _ => ⟨fun hshort => absurd hshort (Nat.not_lt_of_le hlen), fun _ =>
    ⟨fun x hx => ?_, fun _ h => by cases h⟩⟩, fun hn => absurd trivial hn⟩
  obtain rfl := Except.ok.inj hx
  refine Act.wp_mono (inputReady_reads hread _) ?_ fun _ _ hf => hf
  intro read p' hr
  obtain ⟨t', rfl, hsend, hread⟩ := hr
  exact ⟨trivial, rfl, t', rfl, hsend, hread⟩

end

end Peer

/-! ## The link -/

namespace Link

variable {ls e ls' e' : SecretKey} {H : Mirrors P ls e ls' e'} {l : Link}

theorem wp_send {r : Role} {msg : List UInt8} {Q : Unit → Link → Prop}
    {E : Fault NoiseError → Link → Prop}
    (h : Act.wp (Peer.encrypt P msg) (l.peer r) (fun bytes p => Q () (l.encrypted r msg bytes p))
      fun e p => E e { l with peer := Function.update l.peer r p }) :
    Act.wp (step P (.send r msg)) l Q E := by
  unfold Act.wp step at *
  cases hx : (l.peer r).encrypt P msg with
  | ok bytes p =>
    rw [hx] at h
    simpa only [hx] using h
  | error e p =>
    rw [hx] at h
    simpa only [hx] using h

theorem wp_deliver {r : Role} {n : Nat} {Q : Unit → Link → Prop} {E : Fault NoiseError → Link → Prop}
    (h : Act.wp (Peer.input P ((l.inbox r).take n)) (l.peer r) (fun o p => Q () (l.fed r n o p))
      fun e p => E e (l.fed r n ([], []) p)) :
    Act.wp (step P (.deliver r n)) l Q E := by
  unfold Act.wp step at *
  cases hx : (l.peer r).input P ((l.inbox r).take n) with
  | ok o p =>
    rw [hx] at h
    simpa only [hx] using h
  | error e p =>
    rw [hx] at h
    simpa only [hx] using h

/-! ### Phases -/

/-- Nothing sent and nothing read yet. -/
def Quiet (l : Link) : Prop := ∀ r, l.sent r = [] ∧ l.read r = []

/-- Act 1 is on the way. -/
structure One (H : Mirrors P ls e ls' e') (l : Link) : Prop where
  initiator : (l.peer .initiator).transport = .outboundHandshake H.initiator
  empty : (l.peer .initiator).handshakeBuf = []
  arrived : l.inbox .initiator = []
  responder : (l.peer .responder).transport = .inboundHandshake (.new P ls' e')
  short : (l.peer .responder).handshakeBuf.length < actOneLen
  act : (l.peer .responder).handshakeBuf ++ l.inbox .responder = H.act1
  quiet : l.Quiet

/-- Act 2 is on the way. -/
structure Two (H : Mirrors P ls e ls' e') (l : Link) : Prop where
  initiator : (l.peer .initiator).transport = .outboundHandshake H.initiator
  short : (l.peer .initiator).handshakeBuf.length < actTwoLen
  act : (l.peer .initiator).handshakeBuf ++ l.inbox .initiator = H.act2
  responder : (l.peer .responder).transport = .inboundHandshake H.responder
  empty : (l.peer .responder).handshakeBuf = []
  arrived : l.inbox .responder = []
  quiet : l.Quiet

/-- Act 3 is on the way, with messages behind it. -/
structure Three (H : Mirrors P ls e ls' e') (l : Link) : Prop where
  initiator : ∃ t bytes, (l.peer .initiator).transport = .ready t ∧
    t.Expects P [] [] ⟨H.rk, H.ck, 0⟩ ∧
    (l.peer .responder).handshakeBuf ++ l.inbox .responder = H.act3 ++ bytes ∧
    Decodes P ⟨H.sk, H.ck, 0⟩ bytes (l.sent .initiator) t.send
  arrived : l.inbox .initiator = []
  responder : (l.peer .responder).transport = .inboundHandshake H.responder
  short : (l.peer .responder).handshakeBuf.length < actThreeLen
  silent : l.sent .responder = []
  unread : ∀ r, l.read r = []

/-- A side that is ready expects what the other has encrypted and it has not read. -/
structure Hears (P : Primitives) (l : Link) (r : Role) : Prop where
  expects : ∃ t t' msgs, (l.peer r).transport = .ready t ∧ (l.peer r.other).transport = .ready t' ∧
    l.sent r.other = l.read r ++ msgs ∧ t.Expects P (l.inbox r) msgs t'.send ∧
    (l.inbox r = [] → msgs = [])

/-- Both sides are ready. -/
structure Four (H : Mirrors P ls e ls' e') (l : Link) : Prop where
  nodeId : (l.peer .responder).nodeId = some (P.C.publicKey ls)
  hears : ∀ r, Hears P l r

/-- How far the handshake has come. -/
inductive Phase (H : Mirrors P ls e ls' e') (l : Link) : Prop
  | one : One H l → Phase H l
  | two : Two H l → Phase H l
  | three : Three H l → Phase H l
  | four : Four H l → Phase H l

theorem start_one (H : Mirrors P ls e ls' e') : One H (start P ls e ls' e') := by
  have hpeer : ((start P ls e ls' e').peer .initiator).transport =
      .outboundHandshake ((Initiator.new P ls (P.C.publicKey ls') e).actOne P).1 := rfl
  have hinbox : (start P ls e ls' e').inbox .responder =
      ((Initiator.new P ls (P.C.publicKey ls') e).actOne P).2 := rfl
  rw [H.actOne] at hpeer hinbox
  exact ⟨hpeer, rfl, rfl, rfl, Nat.zero_lt_succ _, hinbox, fun _ => ⟨rfl, rfl⟩⟩

theorem Quiet.fed (h : l.Quiet) (r : Role) (n : Nat) (out : List (List UInt8)) (p : Peer) :
    (l.fed r n (out, []) p).Quiet := by
  intro r'
  refine ⟨(h r').1, ?_⟩
  show Function.update l.read r (l.read r ++ []) r' = []
  rw [List.append_nil, Function.update_eq_self, (h r').2]

/-- An act is complete, or the bytes in flight do not complete it. -/
theorem cut {buf inbox act : List UInt8} {len : Nat} (h : buf ++ inbox = act) (hlen : act.length = len)
    (n : Nat) : (buf ++ inbox.take n).length < len ∨
      (buf ++ inbox.take n = act ∧ inbox.drop n = []) := by
  have hsplit : buf ++ inbox.take n ++ inbox.drop n = act := by
    rw [List.append_assoc, List.take_append_drop, h]
  have hsum := congrArg List.length hsplit
  rw [List.length_append, hlen] at hsum
  by_cases hshort : (buf ++ inbox.take n).length < len
  · exact .inl hshort
  · have hnil : inbox.drop n = [] := List.eq_nil_of_length_eq_zero (by omega)
    rw [hnil, List.append_nil] at hsplit
    exact .inr ⟨hsplit, hnil⟩

theorem One.deliver (h : One H l) (r : Role) (n : Nat) :
    Act.wp (step P (.deliver r n)) l (fun _ l' => One H l' ∨ Two H l') fun _ _ => False := by
  apply wp_deliver
  cases r with
  | initiator =>
    have hnone : (l.inbox .initiator).take n = [] := by rw [h.arrived, List.take_nil]
    refine Act.wp_mono (Peer.input_actTwo_short h.initiator ?_) ?_ fun _ _ hf => hf
    · rw [h.empty, hnone]
      exact Nat.zero_lt_succ _
    · intro o p hw
      obtain ⟨rfl, rfl⟩ := hw
      refine .inl ⟨?_, ?_, ?_, ?_, ?_, ?_, h.quiet.fed _ _ _ _⟩
      all_goals simp [Link.fed, Role.other, h.initiator, h.empty, h.arrived, h.responder, h.short, h.act]
  | responder =>
    obtain hshort | ⟨hact, hnil⟩ := cut h.act H.length_act1 n
    · refine Act.wp_mono (Peer.input_actOne_short h.responder rfl hshort) ?_ fun _ _ hf => hf
      intro o p hw
      obtain ⟨rfl, rfl⟩ := hw
      refine .inl ⟨?_, ?_, ?_, ?_, ?_, ?_, h.quiet.fed _ _ _ _⟩
      · simp [Link.fed, h.initiator]
      · simp [Link.fed, h.empty]
      · simp [Link.fed, Role.other, h.arrived]
      · simp [Link.fed, h.responder]
      · simpa [Link.fed] using hshort
      · simpa [Link.fed, Role.other] using h.act
    · refine Act.wp_mono (Peer.input_actOne H h.responder hact) ?_ fun _ _ hf => hf
      intro o p hw
      obtain ⟨rfl, rfl⟩ := hw
      refine .inr ⟨?_, ?_, ?_, ?_, ?_, ?_, h.quiet.fed _ _ _ _⟩
      · simp [Link.fed, h.initiator]
      · simp [Link.fed, h.empty, actTwoLen]
      · simp [Link.fed, Role.other, h.empty, h.arrived]
      · simp [Link.fed]
      · simp [Link.fed]
      · simp [Link.fed, Role.other, hnil]

theorem Two.deliver (h : Two H l) (r : Role) (n : Nat) :
    Act.wp (step P (.deliver r n)) l (fun _ l' => Two H l' ∨ Three H l') fun _ _ => False := by
  apply wp_deliver
  cases r with
  | initiator =>
    obtain hshort | ⟨hact, hnil⟩ := cut h.act H.length_act2 n
    · refine Act.wp_mono (Peer.input_actTwo_short h.initiator hshort) ?_ fun _ _ hf => hf
      intro o p hw
      obtain ⟨rfl, rfl⟩ := hw
      refine .inl ⟨?_, ?_, ?_, ?_, ?_, ?_, h.quiet.fed _ _ _ _⟩
      · simp [Link.fed, h.initiator]
      · simpa [Link.fed] using hshort
      · simpa [Link.fed, Role.other] using h.act
      · simp [Link.fed, h.responder]
      · simp [Link.fed, h.empty]
      · simp [Link.fed, Role.other, h.arrived]
    · refine Act.wp_mono (Peer.input_actTwo H h.initiator hact) ?_ fun _ _ hf => hf
      intro o p hw
      obtain ⟨rfl, t, ht, hexp, hsend⟩ := hw
      refine .inr ⟨⟨t, [], ?_, hexp, ?_, ?_⟩, ?_, ?_, ?_, ?_, ?_⟩
      · simpa [Link.fed] using ht
      · simp [Link.fed, Role.other, h.empty, h.arrived]
      · rw [hsend]
        show Decodes P _ [] (l.sent .initiator) _
        rw [(h.quiet .initiator).1]
        exact .nil _
      · simp [Link.fed, Role.other, hnil]
      · simp [Link.fed, h.responder]
      · simp [Link.fed, h.empty, actThreeLen]
      · exact (h.quiet .responder).1
      · exact fun r => ((h.quiet.fed .initiator n [H.act3] p) r).2
  | responder =>
    have hnone : (l.inbox .responder).take n = [] := by rw [h.arrived, List.take_nil]
    refine Act.wp_mono (Peer.input_actThree_short h.responder H.actedOne ?_) ?_ fun _ _ hf => hf
    · rw [h.empty, hnone]
      exact Nat.zero_lt_succ _
    · intro o p hw
      obtain ⟨rfl, rfl⟩ := hw
      refine .inl ⟨?_, ?_, ?_, ?_, ?_, ?_, h.quiet.fed _ _ _ _⟩
      all_goals simp [Link.fed, Role.other, h.initiator, h.empty, h.arrived, h.responder, h.short, h.act]

theorem Three.deliver (h : Three H l) (r : Role) (n : Nat) :
    Act.wp (step P (.deliver r n)) l (fun _ l' => Three H l' ∨ Four H l') fun _ _ => False := by
  obtain ⟨t, bytes, ht, hexp, hact, hd⟩ := h.initiator
  apply wp_deliver
  cases r with
  | initiator =>
    have hnone : (l.inbox .initiator).take n = [] := by rw [h.arrived, List.take_nil]
    rw [hnone]
    have hread : t.Expects P ([] ++ []) [] ⟨H.rk, H.ck, 0⟩ := hexp
    refine Act.wp_mono (Peer.input_ready ht hread) ?_ fun _ _ hf => hf
    intro o p hr
    obtain ⟨hout, t', rfl, hsend, msgs', hread, hexp', -⟩ := hr
    obtain ⟨hnil, rfl⟩ := List.append_eq_nil_iff.1 hread.symm
    obtain ⟨out, read⟩ := o
    obtain rfl : out = [] := hout
    obtain rfl : read = [] := hnil
    have hsend' : t'.send = t.send := hsend
    refine .inl ⟨⟨t', bytes, ?_, hexp', ?_, ?_⟩, ?_, ?_, ?_, h.silent, ?_⟩
    · simp [Link.fed]
    · simpa [Link.fed, Role.other] using hact
    · rw [hsend']
      exact hd
    · simp [Link.fed, Role.other, h.arrived]
    · simp [Link.fed, h.responder]
    · simpa [Link.fed] using h.short
    · intro r
      cases r <;> simp [Link.fed, h.unread]
  | responder =>
    by_cases hshort : ((l.peer .responder).handshakeBuf ++ (l.inbox .responder).take n).length < actThreeLen
    · refine Act.wp_mono (Peer.input_actThree_short h.responder H.actedOne hshort) ?_ fun _ _ hf => hf
      intro o p hw
      obtain ⟨rfl, rfl⟩ := hw
      refine .inl ⟨⟨t, bytes, ?_, hexp, ?_, hd⟩, ?_, ?_, ?_, h.silent, ?_⟩
      · simp [Link.fed, ht]
      · simpa [Link.fed, Role.other] using hact
      · simp [Link.fed, Role.other, h.arrived]
      · simp [Link.fed, h.responder]
      · simpa [Link.fed] using hshort
      · intro r
        cases r <;> simp [Link.fed, h.unread]
    · have hstream : (l.peer .responder).handshakeBuf ++ (l.inbox .responder).take n ++
          (l.inbox .responder).drop n = H.act3 ++ bytes := by
        rw [List.append_assoc, List.take_append_drop, hact]
      refine Act.wp_mono (Peer.input_actThree H h.responder hstream (Nat.le_of_not_lt hshort) hd) ?_
        fun _ _ hf => hf
      intro o p hr
      obtain ⟨hout, hid, t', ht', hsend, msgs', hsent, hexp', hdone⟩ := hr
      refine .inr ⟨?_, fun r => ?_⟩
      · simpa [Link.fed] using hid
      · cases r with
        | initiator =>
          refine ⟨t, t', [], ?_, ?_, ?_, ?_, fun _ => rfl⟩
          · simp [Link.fed, ht]
          · simp [Link.fed, Role.other, ht']
          · simp [Link.fed, Role.other, h.silent, h.unread]
          · simpa [Link.fed, Role.other, h.arrived, hout, hsend] using hexp
        | responder =>
          refine ⟨t', t, msgs', ?_, ?_, ?_, ?_, ?_⟩
          · simp [Link.fed, ht']
          · simp [Link.fed, Role.other, ht]
          · simp [Link.fed, Role.other, h.unread, hsent]
          · simpa [Link.fed, Role.other] using hexp'
          · simpa [Link.fed, Role.other] using hdone

theorem Four.deliver (h : Four H l) (r : Role) (n : Nat) :
    Act.wp (step P (.deliver r n)) l (fun _ l' => Four H l' ∧
      l'.inbox r.other = l.inbox r.other) fun _ _ => False := by
  obtain ⟨t, t', msgs, ht, ht', hsent, hexp, -⟩ := (h.hears r).expects
  obtain ⟨u, u', msgs', hu, hu', hsent', hexp', hdone'⟩ := (h.hears r.other).expects
  rw [Role.other_other] at hu' hsent'
  obtain rfl : t' = u := PeerTransport.ready.inj (ht'.symm.trans hu)
  obtain rfl : t = u' := PeerTransport.ready.inj (ht.symm.trans hu')
  have hne : r.other ≠ r := r.other_ne
  apply wp_deliver
  rw [← List.take_append_drop n (l.inbox r)] at hexp
  refine Act.wp_mono (Peer.input_ready ht hexp) ?_ fun _ _ hf => hf
  intro o p hr
  obtain ⟨hout, t₁, rfl, hsend, msgs₁, rfl, hexp₁, hdone⟩ := hr
  have hsend₁ : t₁.send = t.send := hsend
  refine ⟨⟨?_, fun r' => ?_⟩, ?_⟩
  · cases r with
    | initiator => simpa [Link.fed] using h.nodeId
    | responder => simpa [Link.fed] using h.nodeId
  · obtain rfl | rfl := Role.eq_or_other r r'
    · refine ⟨t₁, t', msgs₁, ?_, ?_, ?_, ?_, ?_⟩
      · simp [Link.fed]
      · simp [Link.fed, hne, ht']
      · simp [Link.fed, hsent]
      · simpa [Link.fed, hne.symm] using hexp₁
      · simpa [Link.fed, hne.symm] using hdone
    · refine ⟨t', t₁, msgs', ?_, ?_, ?_, ?_, ?_⟩
      · simp [Link.fed, hne, ht']
      · simp [Link.fed]
      · simp [Link.fed, hne, hsent']
      · simpa [Link.fed, hne, hout, hsend₁] using hexp'
      · simpa [Link.fed, hne, hout] using hdone'
  · simp [Link.fed, hne, hout]

/-! ### Sending -/

@[simp] theorem update_peer (l : Link) (r : Role) :
    { l with peer := Function.update l.peer r (l.peer r) } = l := by
  rw [Function.update_eq_self]

/-- In the middle of the handshake nothing is sent. -/
theorem send_handshake {r : Role} (h : (l.peer r).isTransport = false) (msg : List UInt8) :
    step P (.send r msg) l = .error (.err .wrongState) l := by
  simp only [step, Peer.encrypt_handshake h, update_peer]

theorem Three.send (h : Three H l) (msg : List UInt8) :
    Act.wp (step P (.send .initiator msg)) l (fun _ l' => msg.length ≤ maxMsgLen ∧ Three H l')
      fun e l' => e ≠ .panic ∧ maxMsgLen < msg.length ∧ l' = l := by
  obtain ⟨t, bytes, ht, hexp, hact, hd⟩ := h.initiator
  apply wp_send
  refine Act.wp_mono (Peer.encrypt_ready ht msg) ?_ ?_
  · intro out p hp
    obtain ⟨hm, rfl, rfl⟩ := hp
    refine ⟨hm, ⟨{ t with send := t.send.nextFrame P }, bytes ++ frame P t.send msg, ?_,
      hexp.congr rfl rfl rfl, ?_, ?_⟩, ?_, ?_, ?_, ?_, h.unread⟩
    · simp [Link.encrypted]
    · simp [Link.encrypted, Role.other, ← List.append_assoc, hact]
    · simpa [Link.encrypted] using hd.snoc hm
    · simp [Link.encrypted, Role.other, h.arrived]
    · simp [Link.encrypted, h.responder]
    · simpa [Link.encrypted] using h.short
    · simp [Link.encrypted, h.silent]
  · intro e p hp
    obtain ⟨he, hm, rfl⟩ := hp
    exact ⟨he, hm, l.update_peer _⟩

theorem Four.send (h : Four H l) (r : Role) (msg : List UInt8) :
    Act.wp (step P (.send r msg)) l (fun _ l' => msg.length ≤ maxMsgLen ∧ Four H l')
      fun e l' => e ≠ .panic ∧ maxMsgLen < msg.length ∧ l' = l := by
  obtain ⟨t, t', msgs, ht, ht', hsent, hexp, hdone⟩ := (h.hears r).expects
  obtain ⟨u, u', msgs', hu, hu', hsent', hexp', -⟩ := (h.hears r.other).expects
  rw [Role.other_other] at hu' hsent'
  obtain rfl : t' = u := PeerTransport.ready.inj (ht'.symm.trans hu)
  obtain rfl : t = u' := PeerTransport.ready.inj (ht.symm.trans hu')
  have hne : r.other ≠ r := r.other_ne
  have hexp₁ : Transport.Expects P { t with send := t.send.nextFrame P } (l.inbox r) msgs t'.send :=
    hexp.congr rfl rfl rfl
  apply wp_send
  refine Act.wp_mono (Peer.encrypt_ready ht msg) ?_ ?_
  · intro out p hp
    obtain ⟨hm, rfl, rfl⟩ := hp
    refine ⟨hm, ?_, fun r' => ?_⟩
    · cases r with
      | initiator => simpa [Link.encrypted] using h.nodeId
      | responder => simpa [Link.encrypted] using h.nodeId
    · obtain rfl | rfl := Role.eq_or_other r r'
      · refine ⟨{ t with send := t.send.nextFrame P }, t', msgs, ?_, ?_, ?_, ?_, ?_⟩
        · simp [Link.encrypted]
        · simp [Link.encrypted, hne, ht']
        · simp [Link.encrypted, hne, hsent]
        · simpa [Link.encrypted, hne.symm] using hexp₁
        · simpa [Link.encrypted, hne.symm] using hdone
      · refine ⟨t', { t with send := t.send.nextFrame P }, msgs' ++ [msg], ?_, ?_, ?_, ?_, ?_⟩
        · simp [Link.encrypted, hne, ht']
        · simp [Link.encrypted]
        · simp [Link.encrypted, hsent']
        · simpa [Link.encrypted, hne] using hexp'.snoc hm
        · intro hnil
          have hframe : frame P t.send msg = [] := by
            simp [Link.encrypted] at hnil
            exact hnil.2
          exact absurd hframe (frame_ne_nil _ _ _)
  · intro e p hp
    obtain ⟨he, hm, rfl⟩ := hp
    exact ⟨he, hm, l.update_peer _⟩

/-! ### Runs -/

/-- However the streams are cut, the acts and the messages arrive. -/
theorem Phase.deliver (h : Phase H l) (r : Role) (n : Nat) :
    Act.wp (step P (.deliver r n)) l (fun _ l' => Phase H l') fun _ _ => False := by
  cases h with
  | one h => exact Act.wp_mono (h.deliver r n) (fun _ _ h' => h'.elim .one .two) fun _ _ hf => hf
  | two h => exact Act.wp_mono (h.deliver r n) (fun _ _ h' => h'.elim .two .three) fun _ _ hf => hf
  | three h => exact Act.wp_mono (h.deliver r n) (fun _ _ h' => h'.elim .three .four) fun _ _ hf => hf
  | four h => exact Act.wp_mono (h.deliver r n) (fun _ _ h' => .four h'.1) fun _ _ hf => hf

/-- A side that is ready sends what is not too long, and a send that fails changes nothing. -/
theorem Phase.send (h : Phase H l) (r : Role) (msg : List UInt8) :
    Act.wp (step P (.send r msg)) l (fun _ l' => Phase H l') fun e l' => e ≠ .panic ∧ l' = l ∧
      ((l.peer r).isTransport = true → maxMsgLen < msg.length) := by
  have hearly (hp : (l.peer r).isTransport = false) : Act.wp (step P (.send r msg)) l
      (fun _ l' => Phase H l') fun e l' => e ≠ .panic ∧ l' = l ∧
        ((l.peer r).isTransport = true → maxMsgLen < msg.length) := by
    unfold Act.wp
    rw [send_handshake hp msg]
    exact ⟨nofun, rfl, fun hn => nomatch hp.symm.trans hn⟩
  cases h with
  | one h =>
    apply hearly
    cases r with
    | initiator => rw [Peer.isTransport, h.initiator]
    | responder => rw [Peer.isTransport, h.responder]
  | two h =>
    apply hearly
    cases r with
    | initiator => rw [Peer.isTransport, h.initiator]
    | responder => rw [Peer.isTransport, h.responder]
  | three h =>
    cases r with
    | initiator =>
      exact Act.wp_mono (h.send msg) (fun _ _ h' => .three h'.2)
        fun _ _ he => ⟨he.1, he.2.2, fun _ => he.2.1⟩
    | responder =>
      apply hearly
      rw [Peer.isTransport, h.responder]
  | four h =>
    exact Act.wp_mono (h.send r msg) (fun _ _ h' => .four h'.2)
      fun _ _ he => ⟨he.1, he.2.2, fun _ => he.2.1⟩

/-- What arrives was sent, in this order. -/
theorem Phase.in_order (h : Phase H l) (r : Role) : l.read r <+: l.sent r.other := by
  cases h with
  | one h =>
    rw [(h.quiet r).2]
    exact List.nil_prefix
  | two h =>
    rw [(h.quiet r).2]
    exact List.nil_prefix
  | three h =>
    rw [h.unread r]
    exact List.nil_prefix
  | four h =>
    obtain ⟨-, -, msgs, -, -, hsent, -⟩ := (h.hears r).expects
    exact ⟨msgs, hsent.symm⟩

theorem act_incomplete {buf inbox act rest : List UInt8} {len : Nat} (h : buf ++ inbox = act ++ rest)
    (hlen : act.length = len) (hshort : buf.length < len) : inbox ≠ [] := by
  intro hnil
  have hsum := congrArg List.length h
  rw [hnil, List.length_append, List.length_append, List.length_nil, hlen] at hsum
  omega

theorem One.pending (h : One H l) : l.inbox .responder ≠ [] :=
  act_incomplete (h.act.trans (List.append_nil _).symm) H.length_act1 h.short

theorem Two.pending (h : Two H l) : l.inbox .initiator ≠ [] :=
  act_incomplete (h.act.trans (List.append_nil _).symm) H.length_act2 h.short

theorem Three.pending (h : Three H l) : l.inbox .responder ≠ [] := by
  obtain ⟨_, _, _, _, hact, _⟩ := h.initiator
  exact act_incomplete hact H.length_act3 h.short

/-- Where no act is left in flight, the handshake is over. -/
theorem Phase.complete (h : Phase H l) (hnil : ∀ r, l.inbox r = []) : Four H l := by
  cases h with
  | one h => exact absurd (hnil .responder) h.pending
  | two h => exact absurd (hnil .initiator) h.pending
  | three h => exact absurd (hnil .responder) h.pending
  | four h => exact h

/-- One more delivery of all that is in flight to a side. -/
theorem deliver_all {Q : Link → Prop} {r : Role}
    (h : Act.wp (step P (.deliver r (l.inbox r).length)) l (fun _ l' => Q l') fun _ _ => False) :
    ∃ l', step P (.deliver r (l.inbox r).length) l = .ok () l' ∧ Q l' ∧ l'.inbox r = [] := by
  obtain ⟨⟨⟩, l', hstep, hQ⟩ := Act.wp_total h
  refine ⟨l', hstep, hQ, ?_⟩
  have hfed : Act.wp (step P (.deliver r (l.inbox r).length)) l
      (fun _ l' => l'.inbox r = []) fun _ _ => True := by
    refine wp_deliver (Act.wp_iff.2 ⟨fun o p _ => ?_, fun _ _ _ => trivial⟩)
    simp [Link.fed, r.other_ne.symm]
  exact (Act.wp_iff.1 hfed).1 () l' hstep

/-- A run of deliveries alone. -/
def Settles (P : Primitives) (l l' : Link) : Prop :=
  ∃ tr, Run (step P) l tr l' ∧ ∀ x ∈ tr, ∃ r n, x = (.deliver r n, .ok ())

theorem Settles.refl : Settles P l l := ⟨[], .nil, nofun⟩

theorem Settles.deliver {l₀ l' : Link} {r : Role} {n : Nat} (h : Settles P l₀ l)
    (hstep : step P (.deliver r n) l = .ok () l') : Settles P l₀ l' := by
  obtain ⟨tr, hr, hall⟩ := h
  refine ⟨_, hr.ok hstep, fun x hx => ?_⟩
  obtain hx | hx := List.mem_append.1 hx
  · exact hall x hx
  · exact ⟨r, n, List.mem_singleton.1 hx⟩

theorem Four.settles {l₀ : Link} (h : Four H l) (hs : Settles P l₀ l) :
    ∃ l', Settles P l₀ l' ∧ ∀ r, l'.inbox r = [] := by
  obtain ⟨l₁, hstep₁, ⟨h₁, -⟩, hnil₁⟩ := deliver_all (h.deliver .responder _)
  obtain ⟨l₂, hstep₂, ⟨-, hkeep⟩, hnil₂⟩ := deliver_all (h₁.deliver .initiator _)
  refine ⟨l₂, (hs.deliver hstep₁).deliver hstep₂, fun r => ?_⟩
  cases r with
  | initiator => exact hnil₂
  | responder => exact hkeep.trans hnil₁

theorem Three.settles {l₀ : Link} (h : Three H l) (hs : Settles P l₀ l) :
    ∃ l', Settles P l₀ l' ∧ ∀ r, l'.inbox r = [] := by
  obtain ⟨l', hstep, h', hnil⟩ := deliver_all (h.deliver .responder _)
  cases h' with
  | inl h' => exact absurd hnil h'.pending
  | inr h' => exact h'.settles (hs.deliver hstep)

theorem Two.settles {l₀ : Link} (h : Two H l) (hs : Settles P l₀ l) :
    ∃ l', Settles P l₀ l' ∧ ∀ r, l'.inbox r = [] := by
  obtain ⟨l', hstep, h', hnil⟩ := deliver_all (h.deliver .initiator _)
  cases h' with
  | inl h' => exact absurd hnil h'.pending
  | inr h' => exact h'.settles (hs.deliver hstep)

theorem One.settles {l₀ : Link} (h : One H l) (hs : Settles P l₀ l) :
    ∃ l', Settles P l₀ l' ∧ ∀ r, l'.inbox r = [] := by
  obtain ⟨l', hstep, h', hnil⟩ := deliver_all (h.deliver .responder _)
  cases h' with
  | inl h' => exact absurd hnil h'.pending
  | inr h' => exact h'.settles (hs.deliver hstep)

theorem Phase.settles (h : Phase H l) : ∃ l', Settles P l l' ∧ ∀ r, l'.inbox r = [] := by
  cases h with
  | one h => exact h.settles .refl
  | two h => exact h.settles .refl
  | three h => exact h.settles .refl
  | four h => exact h.settles .refl

theorem phase_of_run {tr : Trace Input NoiseError Unit} (hr : Run (step P) (start P ls e ls' e') tr l)
    (H : Mirrors P ls e ls' e') : Phase H l := by
  refine Run.invariant (A := fun _ => True) (.one (start_one H)) ?_ hr fun _ _ => trivial
  intro l i _ h
  cases i with
  | send r msg =>
    refine Act.wp_mono (h.send r msg) (fun _ _ h' => h') fun e l' he _ _ => ?_
    rw [he.2.1]
    exact h
  | deliver r n => exact Act.wp_mono (h.deliver r n) (fun _ _ h' => h') fun _ _ hf => hf.elim

/-- Whatever the keys, the messages and the cuts: nothing fed is refused, messages arrive in order, and
once everything in flight has been fed, which can be done, both sides are ready, know each other, and
have read what the other has encrypted. -/
theorem end_to_end (hP : P.Lawful) {tr : Trace Input NoiseError Unit}
    (hr : Run (step P) (start P ls e ls' e') tr l) :
    (∀ r n, ∃ l', step P (.deliver r n) l = .ok () l') ∧
    (∀ r msg, (l.peer r).isTransport = true → msg.length ≤ maxMsgLen →
      ∃ l', step P (.send r msg) l = .ok () l') ∧
    (∀ r, l.read r <+: l.sent r.other) ∧
    ((∀ r, l.inbox r = []) → (∀ r, (l.peer r).isTransport = true ∧ l.read r = l.sent r.other) ∧
      (l.peer .responder).nodeId = some (P.C.publicKey ls)) ∧
    ∃ l', Settles P l l' ∧ ∀ r, l'.inbox r = [] := by
  obtain ⟨H⟩ := handshake_mirrors hP ls e ls' e'
  have h : Phase H l := phase_of_run hr H
  refine ⟨fun r n => ?_, fun r msg hready hm => ?_, h.in_order, fun hnil => ?_, h.settles⟩
  · obtain ⟨⟨⟩, l', hstep, -⟩ := Act.wp_total (h.deliver r n)
    exact ⟨l', hstep⟩
  · cases hstep : step P (.send r msg) l with
    | ok a l' => exact ⟨l', rfl⟩
    | error e l' =>
      obtain ⟨-, -, hlong⟩ := Act.wp_error (h.send r msg) hstep
      exact absurd (hlong hready) (Nat.not_lt_of_le hm)
  · have hfour := h.complete hnil
    refine ⟨fun r => ?_, hfour.nodeId⟩
    obtain ⟨t, t', msgs, ht, -, hsent, -, hdone⟩ := (hfour.hears r).expects
    rw [Peer.isTransport, ht, hsent, hdone (hnil r), List.append_nil]
    exact ⟨rfl, rfl⟩

end Link

/-! ## A concrete link -/

namespace Demo

open Crypto.Transparent

/-- Transparent primitives, whose public keys are any 33 bytes. -/
def primitives : Primitives where
  C := .transparent
  K :=
    { fromSlice := fun b => if h : b.length = 33 then some ⟨⟨b.toArray, h⟩⟩ else none
      fromCompact := fun _ => none }
  chacha20 _ _ _ len := List.replicate len 0
  poly1305 key data := ofNat 16 (checksum (key ++ data))

theorem primitives_lawful : primitives.Lawful where
  ecdh_comm a b := by
    have hkey (sk : SecretKey) :
        Bytes.beVal (primitives.C.publicKey sk).serialize = Bytes.beVal sk.bytes.toList := by
      have hlt : Bytes.beVal sk.bytes.toList < 256 ^ 33 := by
        have h32 := Bytes.beVal_lt sk.bytes.toList
        rw [Vector.length_toList] at h32
        omega
      have hbytes (n : Nat) : (ofNat 33 n).toList = Bytes.beBytes 33 n := by simp [ofNat]
      show Bytes.beVal (ofNat 33 _).toList = _
      rw [hbytes, Bytes.beVal_beBytes, Nat.mod_eq_of_lt hlt]
    show ofNat 32 (_ + _) = ofNat 32 (_ + _)
    rw [hkey, hkey, Nat.add_comm]
  fromSlice_serialize sk := by
    generalize primitives.C.publicKey sk = pk
    obtain ⟨⟨bytes, hlen⟩⟩ := pk
    simp [primitives, PublicKey.serialize, hlen]

def secret (n : Nat) : SecretKey := ⟨ofNat 32 n⟩

def link : Link := .start primitives (secret 1) (secret 2) (secret 3) (secret 4)

/-- Both sides send, and the streams are cut in the middle of the acts and of a frame. -/
def inputs : List Link.Input :=
  [.deliver .responder 20, .deliver .responder 30, .deliver .initiator 50,
    .send .initiator [1, 2], .deliver .responder 70, .send .responder [3],
    .deliver .responder 7, .deliver .responder 60, .deliver .initiator 60]

end Demo

namespace Link

theorem end_to_end_demo :
    ∃ tr l, Run (step Demo.primitives) Demo.link tr l ∧ l.read .responder = [[1, 2]] ∧
      l.read .initiator = [[3]] ∧
      (l.peer .responder).nodeId = some (Demo.primitives.C.publicKey (Demo.secret 1)) := by
  obtain ⟨tr, l, hr, hnil, hnil', hsent, hsent'⟩ :=
    Run.exists_of_exec (f := step Demo.primitives) (s := Demo.link) Demo.inputs
      (fun l => l.inbox .initiator = [] ∧ l.inbox .responder = [] ∧ l.sent .initiator = [[1, 2]] ∧
        l.sent .responder = [[3]]) (by decide +kernel)
  obtain ⟨-, -, -, hdone, -⟩ := end_to_end Demo.primitives_lawful hr
  obtain ⟨hread, hid⟩ := hdone fun r => by cases r with
    | initiator => exact hnil
    | responder => exact hnil'
  exact ⟨tr, l, hr, (hread .responder).2.trans hsent, (hread .initiator).2.trans hsent', hid⟩

end Link

end Noise
