import Zre.Proofs.Cluster
import Zre.Proofs.Utf8

/-!
# Proofs: the tuples of a cluster's members

Nobody else announces anything under the key of a member, and nobody withdraws such a tuple. Then the tuple of each
member stays what it is wherever it turns up, and the hub keeps it once it has come there.
-/

namespace Zre

open Fallible

/-! ## Tuples and peers -/

namespace Node

/-- No peer is given up. -/
def Keeps (n n' : Node) : Prop := ∀ k, n.peers.contains k = true → n'.peers.contains k = true

variable {env : Env} {n n' : Node}

theorem keeps_of_eq (h : n'.peers = n.peers) : n.Keeps n' := fun k hk => by rwa [h]

theorem Keeps.trans {n'' : Node} (h : n.Keeps n') (h' : n'.Keeps n'') : n.Keeps n'' := fun k hk => h' k (h k hk)

theorem keeps_set {k : Str} {r : Ref} (h : n'.peers = n.peers.set k r) : n.Keeps n' := by
  intro j hj
  rw [Dict.contains_iff] at hj ⊢
  obtain ⟨s, hs⟩ := hj
  rw [h, Dict.get_set]
  by_cases hk : k = j
  · exact ⟨r, if_pos hk⟩
  · exact ⟨s, (if_neg hk).trans hs⟩

theorem keeps_sendHello (r : Ref) : Ensures (n.sendHello env r) n.Keeps := fun n' h =>
  keeps_of_eq (by rw [(talk_sendHello env n r n' h).rest])

theorem openPeer_peers {uuidHex addr : Str} {port : Int} {rhex : Option Str} {res : Option Ref}
    (h : n.openPeer env uuidHex addr port rhex = (res, n')) : n'.peers = n.peers := by
  rcases openPeer_cases env n uuidHex addr port rhex with h' | ⟨p, -, -, h'⟩ | ⟨curve, h'⟩ <;>
    rw [h] at h' <;> cases h' <;> rfl

theorem keeps_dialPeer {rhex addr : Str} {port : Int} {res : Option Ref}
    (h : n.dialPeer env rhex addr port = (res, n')) : n.Keeps n' := by
  unfold dialPeer at h
  cases hopen : n.openPeer env rhex addr port (some rhex) with
  | mk o m =>
    have hsame := openPeer_peers hopen
    rw [hopen] at h
    cases o with
    | none =>
      cases h
      exact keeps_of_eq hsame
    | some r =>
      cases h
      exact keeps_set (by rw [← hsame])

theorem keeps_meetPeer (rhex addr : Str) (port : Int) : Ensures (n.meetPeer env rhex addr port) n.Keeps := by
  unfold meetPeer
  cases ha : n.adoptPending env addr port rhex with
  | mk o n1 =>
    cases o with
    | some r =>
      obtain ⟨k, rfl, -⟩ := adoptPending_some ha
      exact (keeps_sendHello r).mono fun _ h => (keeps_set rfl).trans h
    | none =>
      obtain ⟨rfl, -⟩ := adoptPending_none ha
      simp only []
      cases hd : n1.dialPeer env rhex addr port with
      | mk o n2 =>
        have hkeeps := keeps_dialPeer hd
        cases o with
        | some r => exact (keeps_sendHello r).mono fun _ h => hkeeps.trans h
        | none => exact Ensures.ok hkeeps

/-- A tuple never costs a node a peer. -/
theorem keeps_gossipRequire (uuidHex endpoint : Str) : Ensures (n.gossipRequire env uuidHex endpoint) n.Keeps := by
  obtain ⟨keys, hkeys⟩ := learnTupleKey_rest n (n.cfg.rt.lower uuidHex) endpoint
  unfold gossipRequire
  simp only [hkeys]
  split
  · exact Ensures.ok fun _ h => h
  split
  · exact Ensures.ok fun _ h => h
  split
  · exact Ensures.ok fun _ h => h
  · exact Ensures.error
  · split
    · exact Ensures.ok (keeps_of_eq rfl)
    · exact (keeps_meetPeer _ _ _).mono fun _ h k hk => h k hk

end Node

namespace Hub

/-- The tuple is news to the hub: it is stored, and waits for the owner. -/
def Learns (env : Env) (h : Hub) (key value : Bytes) (ttl : Nat) (h' : Hub) : Prop :=
  h'.tuples = h.tuples.set key (value, expiry env.now ttl) ∧ h'.pending = h.pending ++ [(key, value)]

theorem accept_learns {env : Env} {h h' : Hub} {key value : Bytes} {ttl : Nat} (hf : Zgs.Fits key value)
    (ht : ttl < 4294967296) (ha : h.accept env key value ttl = .ok h') :
    ((h.tuples.get key).map Prod.fst = some value ∧ h' = h) ∨ h.Learns env key value ttl h' := by
  obtain ⟨hold, rfl⟩ | ⟨-, rfl⟩ := accept_eq_ok hf ht ha
  · exact Or.inl ⟨hold, rfl⟩
  · exact Or.inr ⟨rfl, rfl⟩

/-- A message leaves the table alone, or it brings a tuple, which is there afterwards. -/
theorem message_learns {env : Env} {h h' : Hub} (hs : h.Sound) {frames : List Bytes} (hf : FitsWire frames)
    (hm : h.handleMessage env frames = .ok h') :
    (h'.tuples = h.tuples ∧ h'.pending = h.pending) ∨
      ∃ key value ttl, Carried frames key value ttl ∧ h.Learns env key value ttl h' := by
  unfold handleMessage at hm
  split at hm
  swap
  · cases hm
    exact Or.inl ⟨rfl, rfl⟩
  rename_i id body
  obtain ⟨m, hdec, hm⟩ := bind_eq_ok_iff.1 hm
  have hs' : (h.addClient id).Sound := hs
  cases m with
  | none =>
    cases hm
    exact Or.inl ⟨rfl, rfl⟩
  | some m =>
    cases m with
    | hello =>
      simp only [snapshot_ok hs'] at hm
      cases hm
      exact Or.inl ⟨rfl, rfl⟩
    | publish key value ttl =>
      rcases accept_learns (hf id body key value ttl rfl hdec) (Zgs.decode_ttl hdec) hm with ⟨-, rfl⟩ | hlearns
      · exact Or.inl ⟨rfl, rfl⟩
      · exact Or.inr ⟨key, value, ttl, ⟨id, body, rfl, hdec⟩, hlearns⟩
    | ping =>
      simp only [sendEach_ok (show Zgs.encode .pong = _ from rfl)] at hm
      cases hm
      exact Or.inl ⟨rfl, rfl⟩
    | pong =>
      cases hm
      exact Or.inl ⟨rfl, rfl⟩
    | invalid =>
      simp only [sendEach_ok (show Zgs.encode .invalid = _ from rfl)] at hm
      cases hm
      exact Or.inl ⟨rfl, rfl⟩

/-- The tuple of a message is in the table afterwards. -/
theorem message_stores {env : Env} {h h' : Hub} {frames : List Bytes} (hf : FitsWire frames)
    (hm : h.handleMessage env frames = .ok h') {key value : Bytes} {ttl : Nat} (hc : Carried frames key value ttl) :
    ∃ expiry, h'.tuples.get key = some (value, expiry) := by
  obtain ⟨id, body, rfl, hdec⟩ := hc
  simp only [handleMessage, hdec, bind_ok] at hm
  rcases accept_learns (hf id body key value ttl rfl hdec) (Zgs.decode_ttl hdec) hm with ⟨hold, rfl⟩ | ⟨hset, -⟩
  · obtain ⟨e, he, rfl⟩ := Option.map_eq_some_iff.1 hold
    exact ⟨e.2, he⟩
  · exact ⟨_, by rw [hset]; exact Dict.get_set_self _ _ _⟩

/-- What the hub posts about a message are the tuple of the message and what it holds. -/
theorem message_tells {env : Env} {h : Hub} (hs : h.Sound) {frames : List Bytes} :
    Ensures (h.handleMessage env frames) fun h' => ∃ new, h'.outbox = h.outbox ++ new ∧
      ∀ s ∈ new, Tells (fun key value ttl => Carried frames key value ttl ∨ h.Stored key value ttl) s := by
  intro h' hm
  rcases handleMessage_posts hs h' hm with rfl | ⟨id, body, rfl, hposts⟩
  · exact ⟨[], by simp, by simp⟩
  · obtain ⟨new, hout, hnew⟩ := hposts.outbox
    exact ⟨new, hout, fun s hs => (hnew s hs).2⟩

/-- A tuple without a deadline outlives the reaper. -/
theorem reap_get {env : Env} {h : Hub} {key value : Bytes} (hk : h.tuples.get key = some (value, 0)) :
    (h.reap env).tuples.get key = some (value, 0) := by
  show (((h.tuples.entries.filter (expired env.now)).map Prod.fst).foldl Dict.pop h.tuples).get key = _
  rw [Dict.get_foldl_pop, if_neg, hk]
  intro hmem
  obtain ⟨e, he, rfl⟩ := List.mem_map.1 hmem
  obtain ⟨he, hexp⟩ := List.mem_filter.1 he
  have hget : h.tuples.get e.1 = some e.2 := (Dict.get_eq_some_iff _).2 he
  rw [hk] at hget
  rw [expired, ← Option.some.inj hget] at hexp
  simp at hexp

end Hub

/-! ## The members -/

namespace Cluster

variable {ι : Type}

/-- What a client said fits on the wire. -/
theorem spoken_fits {d : Client} (hw : d.Wired) {link : Nat} {body : Bytes} (hbody : body ∈ d.spoken link)
    (id : Bytes) : Hub.FitsWire [id, body] := by
  obtain ⟨s, hs, -, -, rfl⟩ := Client.mem_spoken.1 hbody
  obtain ⟨-, m, hm, -⟩ := hw.sent s hs
  rintro _ _ key value ttl ⟨⟩ hdec
  rw [Zgs.decode_encode hm] at hdec
  cases hdec
  exact Zgs.fits_of_encode hm

/-- The tuple with which a member announces itself. -/
inductive Members.Announces (members : Members ι) : Bytes → Bytes → Prop where
  | client (i : ι) : Announces members (encodeStr (members.cfg i).peerIdHex) (members.endpoint i)
  | host (o : Config × Bytes) (h : members.host = some o) : Announces members (encodeStr o.1.peerIdHex) o.2

/-- No two members have one uuid. -/
structure Members.Distinct (members : Members ι) : Prop where
  clients : ∀ i j, (members.cfg i).peerId = (members.cfg j).peerId → i = j
  host : ∀ o, members.host = some o → ∀ i, (members.cfg i).peerId ≠ o.1.peerId

/-- The members do without Curve, and their interpreters can split each of the endpoints. -/
structure Members.Dialable (members : Members ι) : Prop where
  plain : ∀ i, (members.cfg i).curveSecret = none
  plainHost : ∀ o, members.host = some o → o.1.curveSecret = none
  endpoint : ∀ i key value, members.Announces key value → ∃ addr port,
    splitEndpoint (members.cfg i).rt (partition '|' (bdec value)).1 = .ok (addr, port)
  endpointHost : ∀ o, members.host = some o → ∀ key value, members.Announces key value → ∃ addr port,
    splitEndpoint o.1.rt (partition '|' (bdec value)).1 = .ok (addr, port)

/-- A tuple under the key of a member is the one of the member, for ever. -/
def Members.Honest (members : Members ι) (key value : Bytes) (ttl : Nat) : Prop :=
  ∀ v, members.Announces key v → value = v ∧ ttl = 0

/-- Nothing fails, no peer is given up, and nobody else publishes or withdraws a tuple of a member. -/
structure Peaceful (routes : Routes ι) (members : Members ι) (c : Cluster ι) (env : GossipEnv) (event : Event ι) :
    Prop where
  welcome : Welcome routes event
  sends : env.Sends
  connects : ∀ n, env.connect n = true
  client : ∀ i input, event = .node i input →
    Ensures ((c.client i).node.step env.toEnv input) (c.client i).node.Keeps
  host : ∀ input n, event = .host input → c.host = some n → Ensures (n.step env.toEnv input) n.Keeps
  stranger : ∀ frames, event = .stranger frames → ∀ key value ttl, Hub.Carried frames key value ttl →
    members.Honest key value ttl
  publish : ∀ key value ttl, event = .publish key value ttl → members.Honest key value ttl
  unpublish : ∀ key value, event = .unpublish key → ¬ members.Announces key value

/-- Nothing is on the way over the open links, and the host has taken what the hub has accepted. -/
structure Quiet (routes : Routes ι) (c : Cluster ι) : Prop where
  up : ∀ i link, link ∈ (c.client i).links → c.up i link = []
  down : ∀ i link, link ∈ (c.client i).links → c.down routes i link = []
  pending : c.hub.pending = []

variable {members : Members ι}

theorem ownKey_injective {b b' : Bytes} (h : encodeStr (hex b) = encodeStr (hex b')) : b = b' := by
  have hback := congrArg bdec h
  rw [bdec_encodeStr, bdec_encodeStr] at hback
  exact Node.hex_injective hback

/-- A key is announced with one endpoint only. -/
theorem Members.Distinct.functional (hd : members.Distinct) {key v w : Bytes} (hv : members.Announces key v)
    (hw : members.Announces key w) : w = v := by
  cases hv with
  | client i =>
    generalize hkey : encodeStr (members.cfg i).peerIdHex = key at hw
    cases hw with
    | client j => rw [hd.clients i j (ownKey_injective hkey)]
    | host o ho => exact absurd (ownKey_injective hkey) (hd.host o ho i)
  | host o ho =>
    generalize hkey : encodeStr o.1.peerIdHex = key at hw
    cases hw with
    | client j => exact absurd (ownKey_injective hkey).symm (hd.host o ho j)
    | host o' ho' =>
      rw [ho] at ho'
      cases ho'
      rfl

theorem Members.Distinct.honest (hd : members.Distinct) {key value : Bytes} (h : members.Announces key value) :
    members.Honest key value 0 := fun _ hv => ⟨hd.functional hv h, rfl⟩

/-- The lower case of a member's key is its uuid. -/
theorem lower_ownKey (rt : Runtime) (b : Bytes) : rt.lower (bdec (encodeStr (hex b))) = hex b := by
  rw [bdec_encodeStr, rt.lower_ascii _ fun c hc => (hex_ascii b c hc).1]
  refine (List.map_congr_left fun c hc => ?_).trans (List.map_id' _)
  obtain ⟨n, rfl⟩ := mem_hex hc
  clear hc
  revert n
  decide

/-! ## The tuples of the members -/

/-- Every tuple that is posted, cached or sent satisfies `P`. -/
structure Spread (P : Bytes → Bytes → Nat → Prop) (c : Cluster ι) : Prop where
  posted : ∀ s ∈ c.hub.outbox, ∀ key value ttl, Zgs.decode s.2 = .ok (some (.publish key value ttl)) → P key value ttl
  cached : ∀ i key value ttl, (c.client i).tuples.get key = some (value, ttl) → P key value.raw ttl
  sent : ∀ i, ∀ s ∈ (c.client i).outbox, ∀ key value ttl, Zgs.decode s.body = .ok (some (.publish key value ttl)) →
    P key value ttl

/-- Wherever the tuple of a member turns up, it is the one of the member. -/
structure Truthful (members : Members ι) (c : Cluster ι) : Prop extends Spread members.Honest c where
  stored : ∀ key value expiry, c.hub.tuples.get key = some (value, expiry) →
    ∀ v, members.Announces key v → value = v ∧ expiry = 0

/-- The hub keeps the tuples of the members, and tells its owner of those that are new. -/
structure Minds (members : Members ι) (h h' : Hub) : Prop where
  kept : ∀ key v, members.Announces key v → h.tuples.get key = some (v, 0) → h'.tuples.get key = some (v, 0)
  woke : ∀ key v, members.Announces key v → h'.tuples.get key = some (v, 0) →
    h.tuples.get key = some (v, 0) ∨ (key, v) ∈ h'.pending
  pending : ∀ d ∈ h.pending, d ∈ h'.pending
  stored : (∀ key value expiry, h.tuples.get key = some (value, expiry) →
      ∀ v, members.Announces key v → value = v ∧ expiry = 0) →
    ∀ key value expiry, h'.tuples.get key = some (value, expiry) →
      ∀ v, members.Announces key v → value = v ∧ expiry = 0

variable {routes : Routes ι} {P : Bytes → Bytes → Nat → Prop} {c c' : Cluster ι} {i : ι} {link : Nat} {h h' : Hub}

theorem minds_of_eq (htuples : h'.tuples = h.tuples) (hpending : h'.pending = h.pending) : Minds members h h' := by
  refine ⟨fun key v _ hk => htuples ▸ hk, fun key v _ hk => Or.inl (htuples ▸ hk), fun d hd => hpending ▸ hd, ?_⟩
  rw [htuples]
  exact fun h => h

/-- An honest tuple is learned. -/
theorem minds_learns {env : Env} {key value : Bytes} {ttl : Nat} (hl : h.Learns env key value ttl h')
    (hhonest : members.Honest key value ttl) : Minds members h h' := by
  obtain ⟨htuples, hpending⟩ := hl
  have hset : ∀ v, members.Announces key v → (value, Hub.expiry env.now ttl) = (v, 0) := by
    intro v hv
    obtain ⟨rfl, rfl⟩ := hhonest v hv
    rfl
  constructor
  · intro k v hv hk
    rw [htuples, Dict.get_set]
    by_cases hkey : key = k
    · subst hkey
      rw [if_pos rfl, hset v hv]
    · rw [if_neg hkey]
      exact hk
  · intro k v hv hk
    rw [htuples, Dict.get_set] at hk
    by_cases hkey : key = k
    · subst hkey
      right
      rw [hpending, (hhonest v hv).1]
      exact List.mem_append_right _ (List.mem_singleton_self _)
    · rw [if_neg hkey] at hk
      exact Or.inl hk
  · intro d hd
    rw [hpending]
    exact List.mem_append_left _ hd
  · intro hold k w expiry hk v hv
    rw [htuples, Dict.get_set] at hk
    by_cases hkey : key = k
    · subst hkey
      rw [if_pos rfl, hset v hv] at hk
      cases hk
      exact ⟨rfl, rfl⟩
    · rw [if_neg hkey] at hk
      exact hold k w expiry hk v hv

theorem minds_message {env : Env} {frames : List Bytes} (hs : h.Sound) (hf : Hub.FitsWire frames)
    (hm : h.handleMessage env frames = .ok h')
    (hhonest : ∀ key value ttl, Hub.Carried frames key value ttl → members.Honest key value ttl) :
    Minds members h h' := by
  rcases Hub.message_learns hs hf hm with ⟨htuples, hpending⟩ | ⟨key, value, ttl, hcarried, hlearns⟩
  · exact minds_of_eq htuples hpending
  · exact minds_learns hlearns (hhonest key value ttl hcarried)

theorem minds_reap (env : Env) (h : Hub) : Minds members h (h.reap env) := by
  refine ⟨fun key v _ hk => Hub.reap_get hk, fun key v _ hk => Or.inl (Dict.get_of_get_foldl_pop hk),
    fun d hd => hd, fun hold key value expiry hk => hold key value expiry (Dict.get_of_get_foldl_pop hk)⟩

theorem minds_unpublish {key : Bytes} (hno : ∀ v, ¬ members.Announces key v) : Minds members h (h.unpublish key) := by
  refine ⟨fun k v hv hk => ?_, fun k v _ hk => Or.inl (Dict.get_of_get_pop hk), fun d hd => hd,
    fun hold k value expiry hk => hold k value expiry (Dict.get_of_get_pop hk)⟩
  have hne : key ≠ k := by
    rintro rfl
    exact hno v hv
  exact (Dict.get_pop h.tuples key k).trans ((if_neg hne).trans hk)

/-- The hub posts some more. -/
theorem Spread.rehub (hp : Spread P c) {said : Bytes → Bytes → Nat → Prop}
    (hposts : ∃ frames, h.outbox = c.hub.outbox ++ frames ∧ ∀ s ∈ frames, Hub.Tells said s)
    (hsaid : ∀ key value ttl, said key value ttl → P key value ttl) (host : Option Node) (heard : ι → Nat → Nat) :
    Spread P (⟨h, host, c.client, heard, c.read⟩ : Cluster ι) := by
  obtain ⟨frames, hout, hframes⟩ := hposts
  refine ⟨fun s hs key value ttl hdec => ?_, hp.cached, hp.sent⟩
  replace hs : s ∈ h.outbox := hs
  rw [hout] at hs
  rcases List.mem_append.1 hs with hs | hs
  · exact hp.posted s hs key value ttl hdec
  · obtain ⟨m, hm, hpub⟩ := hframes s hs
    rw [Zgs.decode_encode hm] at hdec
    cases hdec
    exact hsaid key value ttl (hpub key value ttl rfl)

/-- The hub posts what is honest. -/
theorem Truthful.rehub (ht : Truthful members c) (hminds : Minds members c.hub h)
    {said : Bytes → Bytes → Nat → Prop} (hposts : ∃ frames, h.outbox = c.hub.outbox ++ frames ∧
      ∀ s ∈ frames, Hub.Tells said s) (hsaid : ∀ key value ttl, said key value ttl → members.Honest key value ttl)
    (host : Option Node) (heard : ι → Nat → Nat) :
    Truthful members (⟨h, host, c.client, heard, c.read⟩ : Cluster ι) :=
  ⟨ht.toSpread.rehub hposts hsaid host heard, hminds.stored ht.stored⟩

/-- What a snapshot tells is honest. -/
theorem Truthful.snapshot (ht : Truthful members c) {key value : Bytes} {ttl : Nat}
    (hst : c.hub.Stored key value ttl) : members.Honest key value ttl := by
  obtain ⟨rfl, expiry, hk⟩ := hst
  exact fun v hv => ⟨(ht.stored key value expiry hk v hv).1, rfl⟩

variable [DecidableEq ι]

/-- The client has talked about what it caches. -/
theorem Spread.call {env : GossipEnv} (ht : Spread P c) {d : Client} (hcalls : (c.client i).Calls env d) :
    Spread P ({ c with client := Function.update c.client i d } : Cluster ι) := by
  refine ⟨ht.posted, fun j key value ttl hk => ?_, fun j s hs key value ttl hdec => ?_⟩
  · by_cases hj : j = i
    · subst hj
      replace hk : (Function.update c.client j d j).tuples.get key = _ := hk
      rw [Function.update_self, hcalls.tuples] at hk
      exact ht.cached j key value ttl hk
    · replace hk : (Function.update c.client i d j).tuples.get key = _ := hk
      rw [Function.update_of_ne hj] at hk
      exact ht.cached j key value ttl hk
  · by_cases hj : j = i
    · subst hj
      replace hs : s ∈ (Function.update c.client j d j).outbox := hs
      rw [Function.update_self] at hs
      rcases hcalls.speaks s hs with hs | ⟨m, hm, hpub⟩
      · exact ht.sent j s hs key value ttl hdec
      · rw [Zgs.decode_encode hm] at hdec
        cases hdec
        obtain ⟨v, hv, rfl⟩ := hpub key value ttl rfl
        exact ht.cached j key v ttl hv
    · replace hs : s ∈ (Function.update c.client i d j).outbox := hs
      rw [Function.update_of_ne hj] at hs
      exact ht.sent j s hs key value ttl hdec

/-- The client has taken a frame of the hub. -/
theorem Spread.take {env : GossipEnv} (ht : Spread P c) (hlink : link < (c.client i).nextLink) {s : Bytes × Bytes}
    (hs : s ∈ c.hub.outbox) {d : Client} (hd : (c.client i).receive env link s.2 = .ok d) (read : ι → Nat → Nat) :
    Spread P (⟨c.hub, c.host, Function.update c.client i d, c.heard, read⟩ : Cluster ι) := by
  rcases Client.receive_shape hlink hd with ⟨key, value, ttl, n, hdec, hcases⟩ | ⟨-, hcalls, -⟩
  · have hposted := ht.posted s hs key value ttl hdec
    have hd : d.outbox = (c.client i).outbox ∧ ∀ k v t, d.tuples.get k = some (v, t) → P k v.raw t := by
      rcases hcases with ⟨-, -, rfl⟩ | ⟨-, rfl⟩
      · refine ⟨rfl, fun k v t hk => ?_⟩
        replace hk : ((c.client i).tuples.set key (.bytes value, ttl)).get k = some (v, t) := hk
        rw [Dict.get_set] at hk
        split at hk
        · rename_i hkey
          cases hk
          exact hkey ▸ hposted
        · exact ht.cached i k v t hk
      · exact ⟨rfl, ht.cached i⟩
    refine ⟨ht.posted, fun j k v t hk => ?_, fun j s hs k v t hdec => ?_⟩
    · replace hk : (Function.update c.client i d j).tuples.get k = some (v, t) := hk
      by_cases hj : j = i
      · subst hj
        rw [Function.update_self] at hk
        exact hd.2 k v t hk
      · rw [Function.update_of_ne hj] at hk
        exact ht.cached j k v t hk
    · replace hs : s ∈ (Function.update c.client i d j).outbox := hs
      by_cases hj : j = i
      · subst hj
        rw [Function.update_self, hd.1] at hs
        exact ht.sent j s hs k v t hdec
      · rw [Function.update_of_ne hj] at hs
        exact ht.sent j s hs k v t hdec
  · have h := ht.call hcalls
    exact ⟨h.posted, h.cached, h.sent⟩

end Cluster

end Zre
