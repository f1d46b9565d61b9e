import Keraunos.Node.Proof.Frames
import Keraunos.Node.Proof.Steps
import Keraunos.Node.Transport

/-!
# The index of the connections

`by_node_id` is written before a handshake, when one completes, and erased on every disconnect. In
runs whose steps are `Orderly` it names a live connection for every node that has one
(`index_sound`); a second connection to a node, or an error in the call that completes a handshake,
breaks that.
-/

/-- What is assumed of the transport: a handshake starts with `connect_outbound`, it stays complete
once it is, and it is the handshake that reveals the identity. -/
structure Env.Steady (E : Env) : Prop where
  outbound : ∀ remote ephemeral, E.isTransport (E.newOutbound remote ephemeral).1 = false
  encrypt : ∀ t msg, E.isTransport (E.encrypt t msg).1 = E.isTransport t
  input : ∀ t data, E.isTransport t → E.isTransport (E.input t data).transport
  reveals : ∀ t data, E.isTransport t → (E.input t data).nodeId = none

/-- The transport of the Noise layer is steady. -/
theorem Env.overNoise_steady (E : Env) (P : Noise.Primitives) (sk : SecretKey) :
    (E.overNoise P sk).Steady where
  outbound _ _ := rfl
  encrypt _ msg := (Connection.encrypt_same msg).2
  input _ _ h := (Connection.input_ready h).1
  reveals _ _ h := (Connection.input_ready h).2

namespace Node

variable {E : Env} {n n' : Node E} {peer : PeerId}

/-- The connection has completed its handshake with the node `k`. -/
def readyAs (p : Peer E) (k : PublicKey) : Bool := E.isTransport p.transport && p.nodeId = some k

def Live (n : Node E) (k : PublicKey) (id : PeerId) : Prop := ∃ p ∈ n.peers.lookup id, readyAs p k

instance (n : Node E) (k : PublicKey) (id : PeerId) : Decidable (Live n k id) :=
  inferInstanceAs (Decidable (∃ p ∈ n.peers.lookup id, readyAs p k = true))

/-- A node that some live connection leads to has one in the index. -/
def Indexed (n : Node E) (k : PublicKey) : Prop := ∃ id ∈ n.byNodeId.lookup k, Live n k id

instance (n : Node E) (k : PublicKey) : Decidable (Indexed n k) :=
  inferInstanceAs (Decidable (∃ id ∈ n.byNodeId.lookup k, Live n k id))

def IndexSound (n : Node E) : Prop := ∀ id k, Live n k id → Indexed n k

/-! ## The condition -/

/-- No other connection has completed its handshake with the node of `peer`. -/
def Alone (n : Node E) (peer : PeerId) : Prop :=
  ∀ p ∈ n.peers.lookup peer, ∀ k ∈ p.nodeId, ∀ id ∈ n.peers.keys, id ≠ peer → ¬ Live n k id

instance (n : Node E) (peer : PeerId) : Decidable (Alone n peer) :=
  inferInstanceAs (Decidable (∀ p ∈ n.peers.lookup peer, ∀ k ∈ p.nodeId, ∀ id ∈ n.peers.keys,
    id ≠ peer → ¬ Live n k id))

/-- An `init` that is answered by a disconnect. -/
def rejectsInit (config : NodeConfig) (init : Wire.Init) : Bool :=
  ((init.features.or init.globalFeatures).unknownRequiredBits Features.knownEvenBits).isSome ||
    init.networks.any fun networks => config.network.chainHash ∉ networks

def LeavesAlone (n : Node E) (peer : PeerId) : Wire.Message → Prop
  | .init init => rejectsInit n.config init = true → Alone n peer
  | _ => True

/-- A handshake that completes in a call that fails leaves a connection that was in the index, or
another live one. -/
def Completes (n : Node E) (peer : PeerId) (data : E.Data) : Prop :=
  ∀ p ∈ n.peers.lookup peer, E.isTransport p.transport = false →
    E.isTransport (E.input p.transport data).transport = true →
    (E.input p.transport data).result.isOk = false →
    ∀ k ∈ ((E.input p.transport data).nodeId <|> p.nodeId),
      n.byNodeId.lookup k = some peer ∨ Indexed n k

def Orderly (n : Node E) : Input E → Prop
  | .connectOutbound remote => ∀ id ∈ n.peers.keys, ¬ Live n remote id
  | .peerDisconnected peer => Alone n peer
  | .peerInput peer data =>
    Completes n peer data ∧ (Input.peerInput peer data).Meets LeavesAlone n
  | _ => True

/-! ## Connections that stay -/

/-- The index is the same, and so are the connections, up to their notes. -/
structure SameLinks (n n' : Node E) : Prop where
  index : n'.byNodeId = n.byNodeId
  peers : ∀ id, (n'.peers.lookup id).map (fun p => (E.isTransport p.transport, p.nodeId)) =
    (n.peers.lookup id).map fun p => (E.isTransport p.transport, p.nodeId)

theorem SameLinks.of_insert {id : PeerId} {p : Peer E} (p' : Peer E)
    (hp : n.peers.lookup id = some p)
    (ht : E.isTransport p'.transport = E.isTransport p.transport) (hid : p'.nodeId = p.nodeId) :
    SameLinks n { n with peers := n.peers.insert id p' } := by
  refine ⟨rfl, fun k => ?_⟩
  show ((n.peers.insert id p').lookup k).map _ = _
  by_cases hk : k = id
  · rw [hk, AList.lookup_insert, hp, Option.map_some, Option.map_some, ht, hid]
  · rw [AList.lookup_insert_ne hk]

theorem SameLinks.frame (hE : E.Steady) : Frame (fun _ => false) (SameLinks (E := E)) where
  plain _ _ := rfl
  refl _ := ⟨rfl, fun _ => rfl⟩
  trans h h' := ⟨h'.index.trans h.index, fun id => (h'.peers id).trans (h.peers id)⟩
  note hp hb _ _ := ⟨hb, fun _ => by rw [hp]⟩
  record _ _ _ := ⟨rfl, fun _ => rfl⟩
  emit _ _ _ := ⟨rfl, fun _ => rfl⟩
  send msg hp := .of_insert _ hp (hE.encrypt _ msg) rfl
  peer hp ht hid := .of_insert _ hp (by rw [ht]) hid

theorem SameLinks.live (h : SameLinks n n') {k : PublicKey} {id : PeerId} :
    Live n' k id ↔ Live n k id := by
  have hp := h.peers id
  unfold Live readyAs
  cases hn : n.peers.lookup id with
  | none =>
    rw [hn, Option.map_none, Option.map_eq_none_iff] at hp
    simp [hp]
  | some p =>
    rw [hn, Option.map_some, Option.map_eq_some_iff] at hp
    obtain ⟨p', hp', heq⟩ := hp
    obtain ⟨ht, hid⟩ := Prod.mk.inj heq
    simp [hp', ht, hid]

theorem SameLinks.indexed (h : SameLinks n n') {k : PublicKey} : Indexed n' k ↔ Indexed n k := by
  simp only [Indexed, h.index, h.live]

theorem SameLinks.sound (h : SameLinks n n') (hs : IndexSound n) : IndexSound n' :=
  fun id k hlive => h.indexed.2 (hs id k (h.live.1 hlive))

theorem Live.mem_keys {k : PublicKey} {id : PeerId} (h : Live n k id) : id ∈ n.peers.keys := by
  obtain ⟨p, hp, -⟩ := h
  exact AList.lookup_isSome.1 (by rw [hp]; rfl)

theorem alone_iff : Alone n peer ↔ ∀ k, (n.peers.lookup peer).bind (·.nodeId) = some k →
    ∀ id, id ≠ peer → ¬ Live n k id := by
  constructor
  · intro h k hk id hne hlive
    obtain ⟨p, hp, hk⟩ := Option.bind_eq_some_iff.1 hk
    exact h p hp k hk id hlive.mem_keys hne hlive
  · intro h p hp k hk id _ hne
    exact h k (Option.bind_eq_some_iff.2 ⟨p, hp, hk⟩) id hne

theorem SameLinks.known (h : SameLinks n n') (id : PeerId) :
    (n'.peers.lookup id).bind (·.nodeId) = (n.peers.lookup id).bind (·.nodeId) := by
  have hp := congrArg (Option.bind · Prod.snd) (h.peers id)
  simpa only [Option.bind_map, Function.comp_def] using hp

theorem SameLinks.alone (h : SameLinks n n') (ha : Alone n peer) : Alone n' peer := by
  rw [alone_iff] at ha ⊢
  intro k hk id hne hlive
  exact ha k (h.known peer ▸ hk) id hne (h.live.1 hlive)

/-! ## Connections that come and go -/

/-- A connection that is not live does not make the index worse. -/
theorem IndexSound.insert {p : Peer E} (hs : IndexSound n) (hp : ∀ k, readyAs p k = false)
    (hold : ∀ q ∈ n.peers.lookup peer, ∀ k, readyAs q k = false)
    (hpeers : n'.peers = n.peers.insert peer p)
    (hindex : ∀ id k, Live n k id → n'.byNodeId.lookup k = n.byNodeId.lookup k) : IndexSound n' := by
  have hlive : ∀ id k, Live n' k id ↔ Live n k id := by
    intro id k
    unfold Live
    rw [hpeers]
    by_cases hid : id = peer
    · rw [hid, AList.lookup_insert]
      cases hq : n.peers.lookup peer with
      | none => simp [hp]
      | some q => simp [hp, hold q hq]
    · rw [AList.lookup_insert_ne hid]
  intro id k hl
  have hl := (hlive id k).1 hl
  obtain ⟨id', hid', hl'⟩ := hs id k hl
  exact ⟨id', (hindex id k hl).trans hid', (hlive id' k).2 hl'⟩

theorem Linked.next_free (hl : Linked n) : n.peers.lookup n.nextPeer = none := by
  by_contra hsome
  obtain ⟨p, hp⟩ := Option.ne_none_iff_exists'.1 hsome
  exact absurd (hl.fresh _ p hp) (Nat.lt_irrefl _)

theorem connectOutbound_sound (hE : E.Steady) (hl : Linked n) (hs : IndexSound n)
    {remote : PublicKey} (hremote : ∀ id ∈ n.peers.keys, ¬ Live n remote id) :
    Act.Ends (connectOutbound remote) n IndexSound := by
  simp only [connectOutbound, randomSecretKey, addPeer, setByNodeId, Act.Ends, Act.wp_bind, Act.wp_get,
    Act.wp_set, Act.wp_pure, Act.wp_modify]
  refine hs.insert (fun k => ?_) (fun q hq => ?_) rfl fun id k hlive => ?_
  · rw [readyAs, hE.outbound, Bool.false_and]
  · rw [hl.next_free] at hq
    cases hq
  · refine AList.lookup_insert_ne fun hk => ?_
    exact hremote id hlive.mem_keys (hk ▸ hlive)

theorem acceptInbound_sound (hl : Linked n) (hs : IndexSound n) :
    Act.Ends (acceptInbound (E := E)) n IndexSound := by
  simp only [acceptInbound, randomSecretKey, addPeer, Act.Ends, Act.wp_bind, Act.wp_get, Act.wp_set,
    Act.wp_pure]
  refine hs.insert (fun k => ?_) (fun q hq => ?_) rfl fun _ _ _ => rfl
  · simp [readyAs]
  · rw [hl.next_free] at hq
    cases hq

/-- A connection is taken out, with its entry in the index. -/
theorem IndexSound.erase {p : Peer E} (hs : IndexSound n) (ha : Alone n peer)
    (hp : n.peers.lookup peer = some p) (hpeers : n'.peers = n.peers.erase peer)
    (hindex : ∀ k, p.nodeId ≠ some k → n'.byNodeId.lookup k = n.byNodeId.lookup k) : IndexSound n' := by
  have hkeep : ∀ id k, id ≠ peer → (Live n' k id ↔ Live n k id) := by
    intro id k hne
    unfold Live
    rw [hpeers, AList.lookup_erase_ne hne]
  have hgone : ∀ k, ¬ Live n' k peer := by
    rintro k ⟨q, hq, -⟩
    rw [hpeers, AList.lookup_erase] at hq
    cases hq
  intro id k hl
  have hne : id ≠ peer := fun heq => hgone k (heq ▸ hl)
  have hl := (hkeep id k hne).1 hl
  have hother : p.nodeId ≠ some k := fun hk =>
    alone_iff.1 ha k (by rw [hp]; exact hk) id hne hl
  obtain ⟨id', hid', hl'⟩ := hs id k hl
  have hne' : id' ≠ peer := by
    rintro rfl
    obtain ⟨q, hq, hready⟩ := hl'
    obtain rfl := Option.some.inj (hp.symm.trans hq)
    simp only [readyAs, Bool.and_eq_true, decide_eq_true_eq] at hready
    exact hother hready.2
  exact ⟨id', (hindex k hother).trans hid', (hkeep id' k hne').2 hl'⟩

theorem peerDisconnected_sound (hE : E.Steady) (hs : IndexSound n) (ha : Alone n peer) :
    Act.Ends (peerDisconnected peer) n IndexSound := by
  refine Act.ends_get_bind ?_
  split
  · exact Act.ends_pure hs
  · next p hp =>
    refine Act.ends_set_bind ?_
    split
    · exact Act.ends_pure (hs.erase ha hp rfl fun _ _ => rfl)
    · next nodeId hid =>
      refine Act.ends_modify_bind ?_
      have hsound : IndexSound { n with
          peers := n.peers.erase peer
          byNodeId := n.byNodeId.erase nodeId } := by
        refine hs.erase ha hp rfl fun k hk => AList.lookup_erase_ne fun hkn => hk ?_
        rw [hid, hkn]
      have hR := SameLinks.frame hE
      refine (hR.bind hR.get (fun m => hR.bind (hR.forM fun id _ => hR.onChannel id rfl)
        fun _ => hR.event rfl) _).mono fun _ h => h.sound hsound

theorem onInit_sound (hE : E.Steady) (hs : IndexSound n) {init : Wire.Init}
    (ha : rejectsInit n.config init = true → Alone n peer) : Act.Ends (onInit peer init) n IndexSound := by
  have hR := SameLinks.frame hE
  have hleave : rejectsInit n.config init = true → ∀ text,
      Act.Ends (do sendWarning peer text; peerDisconnected peer) n IndexSound := by
    intro hreject text
    refine Act.ends_bind (Act.wp_mono (hR.sendWarning peer text n) (fun _ n' h => ?_)
      fun _ _ h e' he => (h e' he).sound hs)
    exact peerDisconnected_sound hE (h.sound hs) (h.alone (ha hreject))
  refine Act.ends_get_bind ?_
  dsimp only
  split
  · next bit hbit => exact hleave (by rw [rejectsInit, hbit]; rfl) _
  · split
    · next hchain => exact hleave (by rw [rejectsInit, hchain, Bool.or_true]) _
    · refine Act.ends_okOr_bind (fun p hp => ?_) fun _ => hs
      have hset : SameLinks n { n with peers := n.peers.insert peer { p with
          features := init.features.or init.globalFeatures
          initReceived := true } } := hR.peer hp rfl rfl
      refine Act.ends_modify_bind (Act.Ends.mono ?_ fun _ h => (hR.trans hset h).sound hs)
      split
      · split
        · exact hR.bind (hR.event rfl) (fun _ => hR.bind hR.get fun _ => hR.forM fun _ _ =>
            hR.sendToPeer _ _) _
        · exact Act.ends_pure (hR.refl _)
      · exact Act.ends_pure (hR.refl _)

/-- The transport took bytes, and nothing was entered into the index. -/
theorem setInput_sound (hE : E.Steady) (hs : IndexSound n) {p : Peer E} (data : E.Data)
    (hp : n.peers.lookup peer = some p)
    (hcompletes : E.isTransport p.transport = false →
      E.isTransport (E.input p.transport data).transport = false) :
    IndexSound { n with peers := n.peers.insert peer { p with
      transport := (E.input p.transport data).transport
      nodeId := (E.input p.transport data).nodeId <|> p.nodeId } } := by
  cases ht : E.isTransport p.transport with
  | true =>
    refine SameLinks.sound (.of_insert _ hp ?_ ?_) hs
    · exact (hE.input _ data ht).trans ht.symm
    · show (_ <|> p.nodeId) = p.nodeId
      rw [hE.reveals _ data ht]
      rfl
  | false =>
    refine hs.insert (fun k => ?_) (fun q hq k => ?_) rfl fun _ _ _ => rfl
    · rw [readyAs, hcompletes ht, Bool.false_and]
    · obtain rfl := Option.some.inj (hp.symm.trans hq)
      rw [readyAs, ht, Bool.false_and]

/-- A connection completes its handshake, and its node has a live connection in the index. -/
theorem IndexSound.complete {p p' : Peer E} (hs : IndexSound n)
    (hp : n.peers.lookup peer = some p) (ht : E.isTransport p.transport = false)
    (ht' : E.isTransport p'.transport = true) (hpeers : n'.peers = n.peers.insert peer p')
    (hindex : ∀ k, p'.nodeId = some k → n'.byNodeId.lookup k = some peer ∨
      Indexed n k ∧ n'.byNodeId.lookup k = n.byNodeId.lookup k)
    (hother : ∀ k, p'.nodeId ≠ some k → n'.byNodeId.lookup k = n.byNodeId.lookup k) :
    IndexSound n' := by
  have hkeep : ∀ id k, id ≠ peer → (Live n' k id ↔ Live n k id) := by
    intro id k hne
    unfold Live
    rw [hpeers, AList.lookup_insert_ne hne]
  have hwas : ∀ k, ¬ Live n k peer := by
    rintro k ⟨q, hq, hready⟩
    obtain rfl := Option.some.inj (hp.symm.trans hq)
    rw [readyAs, ht] at hready
    cases hready
  have hnow : ∀ k, Live n' k peer ↔ p'.nodeId = some k := by
    intro k
    unfold Live readyAs
    rw [hpeers, AList.lookup_insert]
    simp [ht']
  have hlift : ∀ k, Indexed n k → n'.byNodeId.lookup k = n.byNodeId.lookup k → Indexed n' k := by
    rintro k ⟨id, hid, hl⟩ hsame
    exact ⟨id, hsame.trans hid, (hkeep id k fun heq => hwas k (heq ▸ hl)).2 hl⟩
  intro id k hl
  by_cases hk : p'.nodeId = some k
  · rcases hindex k hk with hme | ⟨hidx, hsame⟩
    · exact ⟨peer, hme, (hnow k).2 hk⟩
    · exact hlift k hidx hsame
  · have hne : id ≠ peer := by
      rintro rfl
      exact hk ((hnow k).1 hl)
    exact hlift k (hs id k ((hkeep id k hne).1 hl)) (hother k hk)

/-- The index names the connection that has just completed its handshake. -/
theorem becomeReady_sound (hE : E.Steady) (hs : IndexSound n) {p p' : Peer E}
    (hp : n.peers.lookup peer = some p) (ht : E.isTransport p.transport = false)
    (ht' : E.isTransport p'.transport = true)
    (hset : SameLinks { n with peers := n.peers.insert peer p' } n') :
    Act.Ends (becomeReady peer p'.nodeId) n' IndexSound := by
  have hR := SameLinks.frame hE
  unfold becomeReady
  split
  · next k hk =>
    have hsound : IndexSound { n with
        peers := n.peers.insert peer p'
        byNodeId := n.byNodeId.insert k peer } := by
      refine hs.complete hp ht ht' rfl (fun k' hk' => .inl ?_) fun k' hk' => ?_
      · obtain rfl := Option.some.inj (hk.symm.trans hk')
        exact AList.lookup_insert _
      · exact AList.lookup_insert_ne fun heq => hk' (heq ▸ hk)
    have hsame : SameLinks { n with
        peers := n.peers.insert peer p'
        byNodeId := n.byNodeId.insert k peer } { n' with byNodeId := n'.byNodeId.insert k peer } := by
      refine ⟨?_, hset.peers⟩
      show n'.byNodeId.insert k peer = n.byNodeId.insert k peer
      rw [hset.index]
    exact Act.ends_modify_bind ((hR.sendInit peer _).mono fun _ h => (hR.trans hsame h).sound hsound)
  · next hk =>
    have hsound : IndexSound { n with peers := n.peers.insert peer p' } := by
      refine hs.complete hp ht ht' rfl (fun k hk' => ?_) fun _ _ => rfl
      cases hk.symm.trans hk'
    exact (hR.sendInit peer _).mono fun _ h => (hR.trans hset h).sound hsound

/-- What is written back goes to the outputs, and that does not fail. -/
theorem writeBack_links {l : List E.Data} :
    Act.wp (l.forM fun bytes => emit (.wire peer bytes)) n (fun _ n' => SameLinks n n')
      fun _ _ => False := by
  induction l generalizing n with
  | nil => exact ⟨rfl, fun _ => rfl⟩
  | cons bytes l ih =>
    have hrest := Act.wp_mono (ih (n := { n with outputs := n.outputs ++ [.wire peer bytes] }))
      (fun _ n' h => SameLinks.mk (n := n) h.index h.peers) fun _ _ h => h
    exact (Act.wp_bind _ _).2 hrest

theorem readInput_sound (hE : E.Steady) (hs : IndexSound n) {data : E.Data}
    (hcompletes : Completes n peer data) : Act.Ends (readInput peer data) n IndexSound := by
  have hR := SameLinks.frame hE
  refine Act.ends_get_bind (Act.ends_okOr_bind (fun p hp => ?_) fun _ => hs)
  dsimp only
  refine Act.ends_modify_bind ?_
  by_cases hnew : E.isTransport p.transport = false ∧
      E.isTransport (E.input p.transport data).transport = true
  · obtain ⟨ht, ht'⟩ := hnew
    split
    · next e hres =>
      refine fun _ _ => hs.complete hp ht ht' rfl (fun k hk => ?_) fun _ _ => rfl
      exact (hcompletes p hp ht ht' (by rw [hres]; rfl) k hk).imp_right fun h => ⟨h, rfl⟩
    · exact Act.ends_panic
    · next toSend messages hres =>
      refine Act.ends_bind (Act.wp_mono writeBack_links (fun _ n' h => ?_) fun _ _ h => h.elim)
      rw [if_pos (by rw [ht, ht']; rfl)]
      exact Act.ends_bind (Act.wp_mono (becomeReady_sound hE hs hp ht ht' h) (fun _ _ h => h)
        fun _ _ h => h)
  · have hsound := setInput_sound hE hs data hp fun ht => Bool.eq_false_iff.2 fun ht' => hnew ⟨ht, ht'⟩
    split
    · exact fun _ _ => hsound
    · exact Act.ends_panic
    · next toSend messages hres =>
      refine Act.ends_bind (Act.wp_mono writeBack_links (fun _ n' h => ?_) fun _ _ h => h.elim)
      rw [if_neg]
      · exact Act.ends_pure (h.sound hsound)
      · intro hboth
        rw [Bool.and_eq_true, Bool.not_eq_true'] at hboth
        exact hnew hboth

/-! ## Messages and calls -/

theorem offerForward_links (hE : E.Steady) (inId outId : ChannelId) (htlc : CommittedInboundHtlc)
    (payload : Onion.HopPayload) (next : Onion.OnionPacket) :
    Keeps (SameLinks (E := E)) (offerForward inId outId htlc payload next) := by
  have hR := SameLinks.frame hE
  refine hR.bind hR.get fun n => hR.bind (hR.entryOf _) fun entry =>
    hR.bind (hR.onChannel _ rfl).attempt fun r => ?_
  split
  · refine hR.bind (fun _ => hR.note rfl rfl rfl rfl) fun _ =>
      hR.bind (hR.sendFor _ _) fun _ => hR.bind (hR.flushCommitment _) fun _ => ?_
    exact fun _ => ⟨rfl, fun _ => rfl⟩
  · exact hR.pure _
  · exact hR.failInbound _ _ _ _
  · exact hR.fail _

theorem handleMessage_sound (hE : E.Steady) (hs : IndexSound n) {msg : Wire.Message}
    (ha : LeavesAlone n peer msg) : Act.Ends (handleMessage peer msg) n IndexSound := by
  have hR := SameLinks.frame hE
  cases msg with
  | init init => exact onInit_sound hE hs ha
  | updateFulfillHtlc ful =>
    refine ((hR.bind (fun _ => hR.runChannel fun _ _ _ _ _ => rfl) fun r => ?_) n).mono
      fun _ h => h.sound hs
    exact hR.onHtlcFulfilled r.1 _
  | revokeAndAck raa =>
    exact (hR.onRevokeAndAck (offerForward_links hE) peer raa n).mono fun _ h => h.sound hs
  | _ => exact (hR.handleMessage peer rfl n).mono fun _ h => h.sound hs

theorem handleDecoded_sound (hE : E.Steady) (hs : IndexSound n)
    {m : Except Wire.WireError Wire.Message} (ha : ∀ msg, m = .ok msg → LeavesAlone n peer msg) :
    Act.Ends (handleDecoded peer m) n IndexSound := by
  have hR := SameLinks.frame hE
  unfold handleDecoded
  split
  · exact handleMessage_sound hE hs (ha _ rfl)
  · exact (hR.sendWarning _ _ n).mono fun _ h => h.sound hs
  · exact Act.ends_pure hs

theorem handleAll_sound (hE : E.Steady) (hs : IndexSound n)
    {ms : List (Except Wire.WireError Wire.Message)} (ha : Handles LeavesAlone peer ms n) :
    Act.Ends (ms.forM fun m => handleDecoded peer m) n IndexSound := by
  induction ms generalizing n with
  | nil => exact Act.ends_pure hs
  | cons m ms ih =>
    have hm := handleDecoded_sound hE hs ha.1
    refine Act.ends_bind (Act.wp_iff.2 ⟨fun u n' hrun => ?_, fun e n' hrun => ?_⟩)
    · exact ih (Act.wp_ok hm hrun) (ha.2 n' hrun)
    · exact Act.wp_error hm hrun

theorem step_sound (hE : E.Steady) (hl : Linked n) (hs : IndexSound n) {i : Input E}
    (ho : Orderly n i) : Act.Ends (step i) n IndexSound := by
  have hR := SameLinks.frame hE
  cases i with
  | connectOutbound remote => exact Act.ends_map (connectOutbound_sound hE hl hs ho)
  | acceptInbound => exact Act.ends_map (acceptInbound_sound hl hs)
  | peerDisconnected peer => exact peerDisconnected_sound hE hs ho
  | peerInput peer data =>
    have hread := readInput_sound hE hs ho.1
    refine Act.ends_bind (Act.wp_iff.2 ⟨fun msgs n' hrun => ?_, fun e n' hrun => ?_⟩)
    · exact handleAll_sound hE (Act.wp_ok hread hrun) (ho.2 msgs n' hrun)
    · exact Act.wp_error hread hrun
  | pollOutput => exact hs
  | _ => exact (hR.step rfl n).mono fun _ h => h.sound hs

theorem Linked.new (entropy : E.Entropy) (config : NodeConfig) :
    Linked (Node.new E entropy config) := ⟨nofun, nofun, nofun⟩

theorem IndexSound.new (entropy : E.Entropy) (config : NodeConfig) :
    IndexSound (Node.new E entropy config) := by
  rintro id k ⟨p, hp, -⟩
  cases hp

/-- In every run whose steps are orderly, a node with a live connection has one in the index. -/
theorem index_sound (hE : E.Steady) {entropy : E.Entropy} {config : NodeConfig}
    {tr : Trace (Input E) NodeError Unit}
    (hr : Run.Within step Orderly (Node.new E entropy config) tr n) : IndexSound n := by
  have hboth : Linked n ∧ IndexSound n := by
    refine hr.invariant (I := fun n => Linked n ∧ IndexSound n) ?_ ?_
    · exact ⟨.new entropy config, .new entropy config⟩
    · intro m i ho ⟨hl, hs⟩
      have hmoves := step_moves (P := fun _ _ => True) (fun _ _ _ _ _ => trivial)
        (fun _ _ _ => trivial) (.top m i)
      exact (hmoves.mono fun _ h => h.invariant (fun _ _ hm => hm.linked) hl).and
        (step_sound hE hl hs ho)
  exact hboth.2

/-! ## Two connections to one node -/

instance (n : Node E) (peer : PeerId) : ∀ msg, Decidable (LeavesAlone n peer msg)
  | .init init => inferInstanceAs (Decidable (rejectsInit n.config init = true → Alone n peer))
  | .commitmentSigned _ | .error _ | .warning _ | .ping _ | .pong _ | .openChannel _ | .acceptChannel _
  | .fundingCreated _ | .fundingSigned _ | .channelReady _ | .updateAddHtlc _ | .updateFulfillHtlc _
  | .updateFailHtlc _ | .updateFailMalformedHtlc _ | .updateFee _ | .revokeAndAck _ | .shutdown _
  | .closingSigned _ | .channelReestablish _ | .announcementSignatures _ | .channelAnnouncement _
  | .channelUpdate _ | .nodeAnnouncement _ | .gossipTimestampFilter _ | .unknown .. => .isTrue trivial

instance (n : Node E) (peer : PeerId) (data : E.Data) : Decidable (Completes n peer data) :=
  inferInstanceAs (Decidable (∀ p ∈ n.peers.lookup peer, E.isTransport p.transport = false →
    E.isTransport (E.input p.transport data).transport = true →
    (E.input p.transport data).result.isOk = false →
    ∀ k ∈ ((E.input p.transport data).nodeId <|> p.nodeId),
      n.byNodeId.lookup k = some peer ∨ Indexed n k))

instance (n : Node E) : ∀ i : Input E, Decidable (Orderly n i)
  | .connectOutbound remote =>
    inferInstanceAs (Decidable (∀ id ∈ n.peers.keys, ¬ Live n remote id))
  | .peerDisconnected peer => inferInstanceAs (Decidable (Alone n peer))
  | .peerInput peer data => inferInstanceAs
      (Decidable (Completes n peer data ∧ (Input.peerInput peer data).Meets LeavesAlone n))
  | .acceptInbound | .tick .. | .bestBlockUpdated .. | .fundingConfirmed .. | .openChannel ..
  | .provideFundingTransaction .. | .closeChannel .. | .forceClose .. | .createInvoice ..
  | .payInvoice .. | .claimPayment .. | .pollOutput => .isTrue trivial

section
open Demo

theorem demo_steady : Demo.env.Steady where
  outbound _ _ := rfl
  encrypt _ _ := rfl
  input _ _ _ := rfl
  reveals _ _ _ := rfl

/-- Two nodes are connected, and one of them leaves. -/
theorem index_sound_demo :
    ∃ tr n, Run.Within step Orderly node tr n ∧ Live n (nodeKey 1) 1 ∧ Indexed n (nodeKey 1) := by
  obtain ⟨tr, n, hr, hlive⟩ := Run.Within.exists_of_exec (f := step) (A := Orderly) (s := node)
    (meets [] ++ [.connectOutbound (nodeKey 3), .peerInput 2 ([] : List Wire.Message),
      .peerDisconnected 2])
    (fun n => Live n (nodeKey 1) 1) (by decide +kernel)
  exact ⟨tr, n, hr, hlive, index_sound demo_steady hr 1 _ hlive⟩

/-- A second connection to a node takes the index, long before its handshake. -/
theorem index_lost : ∃ tr n, Run step node tr n ∧ Live n (nodeKey 1) 1 ∧ ¬ IndexSound n := by
  obtain ⟨tr, n, hr, hlive, hlost⟩ := Run.exists_of_exec (f := step) (s := node)
    (meets [] ++ [.connectOutbound (nodeKey 1)])
    (fun n => Live n (nodeKey 1) 1 ∧ ¬ Indexed n (nodeKey 1)) (by decide +kernel)
  exact ⟨tr, n, hr, hlive, fun hs => hlost (hs 1 _ hlive)⟩

end

end Node
