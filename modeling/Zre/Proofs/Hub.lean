import Zre.Proofs.GossipFormat
import Zre.Proofs.Returns
import Zre.Proofs.Membership

/-!
# Proofs: what a gossip table may hold

The hub stores a tuple before it encodes it for its clients, and a client stores what a hub sends before
it announces it again. Both go well as long as every tuple that arrives can be encoded.
-/

namespace Zre

open Fallible

/-! ## The hub -/

namespace Hub

/-- `zgs_decode` returns on the body. -/
def Decodes (frames : List Bytes) : Prop :=
  ∀ routingId body, frames = [routingId, body] → ∃ m, Zgs.decode body = .ok m

/-- A PUBLISH with a key or a value that `zgs_encode` rejects is not among the frames. -/
def FitsWire (frames : List Bytes) : Prop :=
  ∀ routingId body key value ttl, frames = [routingId, body] →
    Zgs.decode body = .ok (some (.publish key value ttl)) → Zgs.Fits key value

/-- Every stored tuple can be encoded. -/
def Sound (h : Hub) : Prop := ∀ key value expiry, h.tuples.get key = some (value, expiry) →
  Zgs.Fits key value

theorem Sound.of_mem {h : Hub} (hs : h.Sound) {e : Bytes × Bytes × Int} (he : e ∈ h.tuples.entries) :
    Zgs.Fits e.1 e.2.1 :=
  hs e.1 e.2.1 e.2.2 ((Dict.get_eq_some_iff _).2 he)

theorem init_sound : init.Sound := by
  intro key value expiry h
  cases h

/-- Sending an encodable message does not raise, and only the socket sees it. -/
theorem sendEach_ok {message : Zgs.Message} {body : Bytes} (hb : Zgs.encode message = .ok body) (h : Hub)
    (ids : List Bytes) :
    h.sendEach message ids = .ok { h with outbox := h.outbox ++ ids.map fun id => (id, body) } := by
  unfold sendEach
  induction ids generalizing h with
  | nil => simp
  | cons id ids ih =>
    have hhead : (do return h.send id (← Zgs.encode message) : Except PyError Hub) =
        .ok (h.send id body) := by rw [hb]; rfl
    rw [List.foldlM_cons, hhead, bind_ok, ih]
    simp [send]

/-- A message that cannot be encoded is raised on at the first client. -/
theorem sendEach_error {message : Zgs.Message} {e : PyError} (hb : Zgs.encode message = .error e) (h : Hub)
    {ids : List Bytes} (hne : ids ≠ []) : h.sendEach message ids = .error e := by
  cases ids with
  | nil => exact absurd rfl hne
  | cons id ids =>
    unfold sendEach
    rw [List.foldlM_cons, hb]
    rfl

/-- An encodable tuple is accepted. -/
theorem accept_ok (env : Env) {h : Hub} (hs : h.Sound) {key value : Bytes} (hf : Zgs.Fits key value)
    {ttl : Nat} (ht : ttl < 4294967296) : ∃ h', h.accept env key value ttl = .ok h' ∧ h'.Sound := by
  unfold accept
  split
  · exact ⟨h, rfl, hs⟩
  · refine ⟨_, sendEach_ok (Zgs.encode_publish hf ht) _ _, ?_⟩
    intro k v e hk
    simp only [Dict.get_set] at hk
    split at hk
    · rename_i hkey
      cases hk
      exact hkey ▸ hf
    · exact hs k v e hk

/-- A tuple that cannot be encoded is raised on, once a client is there to be told. -/
theorem accept_error (env : Env) {h : Hub} (hs : h.Sound) {key value : Bytes} (hf : ¬ Zgs.Fits key value)
    (ttl : Nat) (hc : h.clients ≠ []) : h.accept env key value ttl = .error .valueError := by
  have hnew : (h.tuples.get key).map Prod.fst ≠ some value := by
    intro hold
    obtain ⟨⟨v, e⟩, hget, rfl⟩ := Option.map_eq_some_iff.1 hold
    exact hf (hs key v e hget)
  unfold accept
  rw [if_neg hnew]
  refine sendEach_error (Zgs.encode_publish_error hf ttl) _ ?_
  intro hnil
  have hperm := env.order_perm h.clients
  rw [hnil] at hperm
  exact hc (List.nil_perm.1 hperm)

theorem reap_sound (env : Env) {h : Hub} (hs : h.Sound) : (h.reap env).Sound :=
  fun key value expiry hk => hs key value expiry (Dict.get_of_get_foldl_pop hk)

/-- The answer to a HELLO, frame by frame. -/
def snapshotFrames (h : Hub) (routingId : Bytes) : List (Bytes × Bytes) :=
  h.tuples.entries.map fun e => (routingId, Zgs.publishBytes e.1 e.2.1 0)

/-- A hub with encodable tuples answers a HELLO with one PUBLISH for each of them. -/
theorem snapshot_ok {h : Hub} (hs : h.Sound) (routingId : Bytes) :
    h.snapshot routingId = .ok { h with outbox := h.outbox ++ h.snapshotFrames routingId } := by
  have hloop : ∀ (es : List (Bytes × Bytes × Int)) (h' : Hub), (∀ e ∈ es, Zgs.Fits e.1 e.2.1) →
      es.foldlM (fun h e => do return h.send routingId (← Zgs.encode (.publish e.1 e.2.1 0))) h' =
        (.ok { h' with outbox := h'.outbox ++ es.map fun e =>
          (routingId, Zgs.publishBytes e.1 e.2.1 0) } : Except PyError Hub) := by
    intro es
    induction es with
    | nil => intro h' _; simp
    | cons e es ih =>
      intro h' hes
      rw [List.foldlM_cons, Zgs.encode_publish (hes e (by simp)) (by decide), bind_ok, pure_eq_ok, bind_ok,
        ih _ fun x hx => hes x (by simp [hx])]
      simp [send]
  exact hloop h.tuples.entries h fun e he => hs.of_mem he

theorem addClient_ne_nil (h : Hub) (routingId : Bytes) : (h.addClient routingId).clients ≠ [] := by
  unfold addClient
  simp only []
  split
  · exact List.ne_nil_of_mem ‹_›
  · simp

/-- A message with an encodable tuple, or with none, is handled. -/
theorem handleMessage_ok (env : Env) {h : Hub} (hs : h.Sound) {frames : List Bytes}
    (hd : Decodes frames) (hf : FitsWire frames) :
    ∃ h', h.handleMessage env frames = .ok h' ∧ h'.Sound := by
  unfold handleMessage
  split
  · rename_i routingId body
    obtain ⟨m, hm⟩ := hd routingId body rfl
    have hs' : (h.addClient routingId).Sound := hs
    simp only [hm, bind_ok]
    cases m with
    | none => exact ⟨_, rfl, hs'⟩
    | some m =>
      cases m with
      | hello => exact ⟨_, snapshot_ok hs' routingId, hs'⟩
      | publish key value ttl =>
        exact accept_ok env hs' (hf routingId body key value ttl rfl hm) (Zgs.decode_ttl hm)
      | ping => exact ⟨_, sendEach_ok (show Zgs.encode .pong = _ from rfl) _ _, hs'⟩
      | pong => exact ⟨_, rfl, hs'⟩
      | invalid => exact ⟨_, sendEach_ok (show Zgs.encode .invalid = _ from rfl) _ _, hs'⟩
  · exact ⟨h, rfl, hs⟩

/-- A message with a tuple that cannot be encoded is raised on. -/
theorem handleMessage_error (env : Env) {h : Hub} (hs : h.Sound) {frames : List Bytes}
    (hf : ¬ FitsWire frames) : h.handleMessage env frames = .error .valueError := by
  unfold FitsWire at hf
  push Not at hf
  obtain ⟨routingId, body, key, value, ttl, rfl, hm, hfit⟩ := hf
  unfold handleMessage
  simp only [hm, bind_ok]
  exact accept_error env (h := h.addClient routingId) hs hfit ttl (addClient_ne_nil h routingId)

/-- The drain of `handle_socket` returns exactly when every tuple among the messages can be encoded. -/
theorem handleSocket_returns_iff (env : Env) {h : Hub} (hs : h.Sound) {messages : List (List Bytes)}
    (hd : ∀ m ∈ messages, Decodes m) :
    (∃ ds h', h.handleSocket env messages = .ok (ds, h')) ↔ ∀ m ∈ messages, FitsWire m := by
  have hloop : ∀ (ms : List (List Bytes)) (h0 : Hub), h0.Sound → (∀ m ∈ ms, Decodes m) →
      ((∃ h', ms.foldlM (fun h frames => h.handleMessage env frames) h0 = .ok h') ↔
        ∀ m ∈ ms, FitsWire m) := by
    intro ms
    induction ms with
    | nil => intro h0 _ _; simp
    | cons m ms ih =>
      intro h0 hs0 hd0
      rw [List.foldlM_cons]
      by_cases hf : FitsWire m
      · obtain ⟨h1, hh1, hs1⟩ := handleMessage_ok env hs0 (hd0 m (by simp)) hf
        rw [hh1, bind_ok, ih h1 hs1 fun x hx => hd0 x (by simp [hx])]
        simp [hf]
      · rw [handleMessage_error env hs0 hf]
        simp [hf]
  rw [← hloop messages (h.reap env) (reap_sound env hs) hd]
  unfold handleSocket
  constructor
  · rintro ⟨ds, h', hr⟩
    obtain ⟨h1, hh1, -⟩ := bind_eq_ok_iff.1 hr
    exact ⟨h1, hh1⟩
  · rintro ⟨h1, hh1⟩
    rw [hh1]
    exact ⟨_, _, rfl⟩

/-- A drain that returns leaves only encodable tuples. -/
theorem handleSocket_sound (env : Env) {h h' : Hub} (hs : h.Sound) {messages : List (List Bytes)}
    (hd : ∀ m ∈ messages, Decodes m) {ds : List (Bytes × Bytes)}
    (hr : h.handleSocket env messages = .ok (ds, h')) : h'.Sound := by
  have hf := (handleSocket_returns_iff env hs hd).1 ⟨ds, h', hr⟩
  obtain ⟨h1, hh1, hr⟩ := bind_eq_ok_iff.1 hr
  cases hr
  have hs1 : h1.Sound := by
    refine Ensures.foldlM (I := Sound) (reap_sound env hs) (fun c m hm hc => ?_) h1 hh1
    obtain ⟨c', hc', hs'⟩ := handleMessage_ok env hc (hd m hm) (hf m hm)
    rw [hc']
    exact Ensures.ok hs'
  exact hs1

/-- The states that a bound hub can reach: its node publishes and unpublishes what it announces itself,
and clients send messages. -/
inductive Reachable : Hub → Prop where
  | init : Reachable Hub.init
  | publish {h h' : Hub} (env : Env) (key value : Bytes) (ttl : Nat) (hh : Reachable h)
      (hf : Zgs.Fits key value) (ht : ttl < 4294967296) (hr : h.publish env key value ttl = .ok h') :
      Reachable h'
  | unpublish {h : Hub} (key : Bytes) (hh : Reachable h) : Reachable (h.unpublish key)
  | handle {h h' : Hub} (env : Env) (messages : List (List Bytes)) (ds : List (Bytes × Bytes))
      (hh : Reachable h) (hd : ∀ m ∈ messages, Decodes m)
      (hr : h.handleSocket env messages = .ok (ds, h')) : Reachable h'

theorem Reachable.sound {h : Hub} (hh : Reachable h) : h.Sound := by
  induction hh with
  | init => exact init_sound
  | publish env key value ttl hh hf ht hr ih =>
    obtain ⟨h1, hh1, hs1⟩ := accept_ok env ih hf ht
    rw [Hub.publish, hh1] at hr
    cases hr
    exact hs1
  | unpublish key hh ih =>
    intro k v e hk
    exact ih k v e (Dict.get_of_get_pop hk)
  | handle env messages ds hh hd hr ih => exact handleSocket_sound env ih hd hr

/-- The drain returns, every tuple can be encoded afterwards, and a HELLO is answered with one PUBLISH
for each stored tuple. -/
def Serves (env : Env) (h : Hub) (messages : List (List Bytes)) : Prop :=
  ∃ ds h', h.handleSocket env messages = .ok (ds, h') ∧
    (∀ key value expiry ttl, ttl < 4294967296 → h'.tuples.get key = some (value, expiry) →
      ∃ body, Zgs.encode (.publish key value ttl) = .ok body) ∧
    ∀ (env' : Env) (routingId body : Bytes), Zgs.decode body = .ok (some .hello) →
      ∃ ds' h'', h'.handleSocket env' [[routingId, body]] = .ok (ds', h'') ∧
        ∃ bodies, h''.outbox = h'.outbox ++ bodies.map (fun b => (routingId, b)) ∧
          List.Forall₂ (fun e b => Zgs.encode (.publish e.1 e.2.1 0) = .ok b) h''.tuples.entries bodies

/-- In every reachable state the hub serves the messages exactly when it can encode every tuple among
them. -/
theorem Reachable.serves_iff {h : Hub} (hh : h.Reachable) (env : Env) {messages : List (List Bytes)}
    (hd : ∀ m ∈ messages, Decodes m) : h.Serves env messages ↔ ∀ m ∈ messages, FitsWire m := by
  rw [← handleSocket_returns_iff env hh.sound hd]
  constructor
  · rintro ⟨ds, h', hr, -⟩
    exact ⟨ds, h', hr⟩
  · rintro ⟨ds, h', hr⟩
    have hs' := handleSocket_sound env hh.sound hd hr
    refine ⟨ds, h', hr, fun key value expiry ttl ht hk => ⟨_, Zgs.encode_publish (hs' _ _ _ hk) ht⟩,
      fun env' routingId body hhello => ?_⟩
    have hsr : ((h'.reap env').addClient routingId).Sound := reap_sound env' hs'
    let answered : Hub := { (h'.reap env').addClient routingId with
      outbox := h'.outbox ++ ((h'.reap env').addClient routingId).snapshotFrames routingId }
    refine ⟨answered.pending, { answered with pending := [] }, ?_,
      ((h'.reap env').tuples.entries.map fun e => Zgs.publishBytes e.1 e.2.1 0), ?_, ?_⟩
    · unfold handleSocket handleMessage
      simp only [List.foldlM_cons, List.foldlM_nil, hhello, bind_ok, snapshot_ok hsr]
      rfl
    · rw [List.map_map]
      rfl
    · show List.Forall₂ _ (h'.reap env').tuples.entries _
      rw [List.forall₂_map_right_iff, List.forall₂_same]
      intro e he
      exact Zgs.encode_publish (hsr.of_mem he) (by decide)

end Hub

/-! ## The client -/

namespace Client

/-- Every cached tuple can be encoded. -/
def Sound (c : Client) : Prop := ∀ key value ttl, c.tuples.get key = some (value, ttl) →
  Zgs.Fits key value.raw ∧ ttl < 4294967296

/-- A PUBLISH that a hub delivers has a key and a value that `zgs_encode` takes. -/
def FitsWire (_ : Client) (_ : GossipEnv) (event : Client.Event) : Prop :=
  ∀ link body key value ttl, event = .hub link body →
    Zgs.decode body = .ok (some (.publish key value ttl)) → Zgs.Fits key value

/-- Talking to the hubs leaves the node and its cache alone. -/
def Chats (c c' : Client) : Prop := c'.node = c.node ∧ c'.tuples = c.tuples

theorem Chats.refl (c : Client) : c.Chats c := ⟨rfl, rfl⟩

theorem Chats.trans {c c' c'' : Client} (h : c.Chats c') (h' : c'.Chats c'') : c.Chats c'' :=
  ⟨h'.1.trans h.1, h'.2.trans h.2⟩

theorem chats_sendTuples (env : GossipEnv) (link : Nat) (c : Client)
    (es : List (Bytes × TupleValue × Nat)) : Ensures (sendTuples env link c es) c.Chats := by
  induction es generalizing c with
  | nil => exact Ensures.ok (Chats.refl c)
  | cons e es ih =>
    rintro c' hc'
    obtain ⟨body, -, hc'⟩ := bind_eq_ok_iff.1 hc'
    simp only [] at hc'
    split at hc'
    · exact ih (c.sendLink env link body).2 c' hc'
    · cases hc'
      exact Chats.refl c

theorem chats_announce (env : GossipEnv) (c : Client) (link : Nat) :
    Ensures (c.announce env link) c.Chats := by
  rintro c' hc'
  obtain ⟨body, -, hc'⟩ := bind_eq_ok_iff.1 hc'
  simp only [] at hc'
  split at hc'
  · exact chats_sendTuples env link (c.sendLink env link body).2 _ c' hc'
  · cases hc'
    exact Chats.refl c

theorem chats_redial (env : GossipEnv) (c : Client) (link : Nat) :
    Ensures (c.redial env link) c.Chats :=
  chats_announce env (({ c with
    links := c.links.erase link, lastRx := c.lastRx.pop link } : Client).openLink env.now) c.nextLink

theorem chats_pingLinks (env : GossipEnv) (c : Client) : Ensures (c.pingLinks env) c.Chats := by
  have hloop : ∀ (body : Bytes) (links : List Nat) (c' : Client),
      c'.Chats (links.foldl (fun c link => (c.sendLink env link body).2) c') := by
    intro body links
    induction links with
    | nil => exact Chats.refl
    | cons link links ih => exact fun c' => ih (c'.sendLink env link body).2
  unfold pingLinks
  split
  · exact Ensures.ok (Chats.refl c)
  · rintro c' hc'
    obtain ⟨body, -, hc'⟩ := bind_eq_ok_iff.1 hc'
    cases hc'
    exact hloop body c.links _

theorem chats_maintain (env : GossipEnv) (c : Client) : Ensures (c.maintain env) c.Chats := by
  unfold maintain
  split
  · exact Ensures.ok (Chats.refl c)
  · refine (chats_pingLinks env c).bind fun c1 h1 => ?_
    refine Ensures.foldlM h1 fun c2 link _ h2 => ?_
    split
    · exact (chats_redial env c2 link).mono fun _ h3 => h2.trans h3
    · exact Ensures.ok h2

theorem Sound.chats {c c' : Client} (hs : c.Sound) (h : c.Chats c') : c'.Sound := by
  unfold Sound
  rw [h.2]
  exact hs

/-- Announcing encodable tuples does not raise. -/
theorem sendTuples_returns (env : GossipEnv) (link : Nat) (es : List (Bytes × TupleValue × Nat))
    (c : Client) (hes : ∀ e ∈ es, Zgs.Fits e.1 e.2.1.raw ∧ e.2.2 < 4294967296) :
    ∃ c', sendTuples env link c es = .ok c' := by
  induction es generalizing c with
  | nil => exact ⟨c, rfl⟩
  | cons e es ih =>
    obtain ⟨key, value, ttl⟩ := e
    obtain ⟨hfit, httl⟩ := hes (key, value, ttl) (by simp)
    unfold sendTuples
    rw [Zgs.encode_publish hfit httl, bind_ok]
    simp only []
    split
    · exact ih _ fun e he => hes e (by simp [he])
    · exact ⟨_, rfl⟩

theorem announce_returns (env : GossipEnv) {c : Client} (hs : c.Sound) (link : Nat) :
    ∃ c', c.announce env link = .ok c' := by
  have hhello : ∃ body, Zgs.encode .hello = .ok body := ⟨_, rfl⟩
  obtain ⟨body, hbody⟩ := hhello
  unfold announce
  rw [hbody, bind_ok]
  simp only []
  split
  · exact sendTuples_returns env link c.tuples.entries (c.sendLink env link body).2 fun e he =>
      hs e.1 e.2.1 e.2.2 ((Dict.get_eq_some_iff _).2 he)
  · exact ⟨_, rfl⟩

/-- A body with a tuple that can be encoded leaves a cache that can be announced. -/
theorem receive_sound (env : GossipEnv) {c : Client} (hs : c.Sound) {link : Nat} {body : Bytes}
    (hf : c.FitsWire env (.hub link body)) : Ensures (c.receive env link body) Sound := by
  unfold receive
  rintro c' hc'
  obtain ⟨m, hm, hc'⟩ := bind_eq_ok_iff.1 hc'
  have hs' : ({ c with lastRx := c.lastRx.set link env.now } : Client).Sound := hs
  split at hc'
  · rename_i key value ttl
    split at hc'
    · obtain ⟨n', -, hc'⟩ := bind_eq_ok_iff.1 hc'
      cases hc'
      intro k v t hk
      simp only [Dict.get_set] at hk
      split at hk
      · rename_i hkey
        cases hk
        exact ⟨hkey ▸ hf link body key value ttl rfl hm, Zgs.decode_ttl hm⟩
      · exact hs k v t hk
    · cases hc'
      exact hs'
  · exact hs'.chats (chats_announce env _ link c' hc')
  · cases hc'
    exact hs'

theorem unpublish_sound {c : Client} (hs : c.Sound) (key : Bytes) : (c.unpublish key).Sound := by
  intro k v t hk
  exact hs k v t (Dict.get_of_get_pop hk)

theorem step_sound (env : GossipEnv) {c : Client} (hs : c.Sound) {event : Client.Event}
    (hf : c.FitsWire env event) : Ensures (c.step env event) Sound := by
  have hnode : ∀ (x : Except PyError Node) (c' : Client), c'.Sound →
      Ensures (do return { c' with node := ← x }) Sound := by
    rintro x c' hs' c'' hc''
    obtain ⟨n', -, hc''⟩ := bind_eq_ok_iff.1 hc''
    cases hc''
    exact hs'
  cases event with
  | hub link body => exact receive_sound env hs hf
  | unpublish key => exact Ensures.ok (unpublish_sound hs key)
  | node input =>
    cases input with
    | reap => exact (chats_maintain env c).bind fun c1 h1 => hnode _ c1 (hs.chats h1)
    | _ => exact hnode _ c hs

/-- The own tuple: a uuid in hex, and an address. -/
theorem own_fits (cfg : Config) {endpoint : Bytes} (hlen : endpoint.length ≤ Zgs.maxLongstrBytes) :
    Zgs.Fits (encodeStr cfg.peerIdHex) endpoint := by
  have hkey : (encodeStr cfg.peerIdHex).length = 32 := by
    rw [Config.peerIdHex, encodeStr_ascii_length (fun c hc => (hex_ascii cfg.peerId c hc).1), hex_length,
      cfg.peerId_length]
  exact ⟨by omega, by rw [hkey]; decide, hlen⟩

theorem start_sound (env : GossipEnv) (cfg : Config) {endpoint : Bytes}
    (hlen : endpoint.length ≤ Zgs.maxLongstrBytes) (hubs : Nat) :
    Ensures (start env cfg endpoint hubs) Sound := by
  refine Ensures.foldlM ?_ fun c _ _ hs => ?_
  · intro k v t hk
    simp only [Dict.get_set] at hk
    split at hk
    · rename_i hkey
      cases hk
      exact ⟨hkey ▸ own_fits cfg hlen, by decide⟩
    · cases hk
  · exact (chats_announce env (c.openLink env.now) c.nextLink).mono fun _ h => Sound.chats hs h

/-- Every run in which the hubs deliver tuples that can be encoded leaves a cache of such tuples. -/
theorem ReachableBy.sound {c : Client} (hc : ReachableBy FitsWire c) : c.Sound := by
  induction hc with
  | start env cfg endpoint hubs hlen h => exact start_sound env cfg hlen hubs _ h
  | step env event _ hp h ih => exact step_sound env ih hp _ h

/-- Every cached tuple can be encoded, and the cache can be announced on every link. -/
def Announces (c : Client) : Prop :=
  (∀ key value ttl, c.tuples.get key = some (value, ttl) →
    ∃ body, Zgs.encode (.publish key value.raw ttl) = .ok body) ∧
  ∀ (env : GossipEnv) (link : Nat), ∃ c', c.announce env link = .ok c'

theorem Sound.announces {c : Client} (hs : c.Sound) : c.Announces :=
  ⟨fun _ _ _ hk => ⟨_, Zgs.encode_publish (hs _ _ _ hk).1 (hs _ _ _ hk).2⟩,
    fun env link => announce_returns env hs link⟩

/-- What a hub delivers leaves a cache that can be announced exactly when the tuple can be encoded. -/
theorem announces_step_iff {env : GossipEnv} {c c' : Client} (hs : c.Sound) {event : Client.Event}
    (h : c.step env event = .ok c') : c'.Announces ↔ c.FitsWire env event := by
  constructor
  · rintro ⟨hall, -⟩ link body key value ttl rfl hm
    by_contra hfit
    have hnew : c.isNews key value = true := by
      simp only [isNews, decide_eq_true_eq]
      intro hold
      obtain ⟨⟨v, t⟩, hget, hv⟩ := Option.map_eq_some_iff.1 hold
      have hbytes : v = .bytes value := hv
      subst hbytes
      exact hfit (hs key _ t hget).1
    have hstored : c'.tuples.get key = some (.bytes value, ttl) := by
      simp only [step, receive] at h
      obtain ⟨m, hm', h⟩ := bind_eq_ok_iff.1 h
      rw [hm] at hm'
      cases hm'
      simp only [] at h
      have hnew' : ({ c with lastRx := c.lastRx.set link env.now } : Client).isNews key value = true := hnew
      rw [if_pos hnew'] at h
      obtain ⟨n', -, h⟩ := bind_eq_ok_iff.1 h
      cases h
      simp
    obtain ⟨bytes, hbytes⟩ := hall key _ ttl hstored
    rw [TupleValue.raw, Zgs.encode_publish_error hfit] at hbytes
    cases hbytes
  · exact fun hf => (step_sound env hs hf c' h).announces

end Client

/-- Neither the hub nor a node's cache is poisoned as long as every tuple that arrives can be encoded, and
a single one that cannot be is enough to poison it. -/
theorem gossip_tables_serve (h : Hub) (c : Client) :
    (h.Reachable → ∀ (env : Env) (messages : List (List Bytes)),
      (∀ m ∈ messages, Hub.Decodes m) → (h.Serves env messages ↔ ∀ m ∈ messages, Hub.FitsWire m)) ∧
    (Client.ReachableBy Client.FitsWire c → c.Announces ∧
      ∀ (env : GossipEnv) (event : Client.Event) (c' : Client), c.step env event = .ok c' →
        (c'.Announces ↔ c.FitsWire env event)) :=
  ⟨fun hh env _ hd => hh.serves_iff env hd,
    fun hc => ⟨hc.sound.announces, fun _ _ _ h => Client.announces_step_iff hc.sound h⟩⟩

/-- A PUBLISH with an empty key, as it may come from any client. -/
def emptyKeyPublish : Bytes := Zgs.signature ++ [2, Zgs.version, 0, 0, 0, 0, 0, 0, 0, 0, 0]

theorem decode_emptyKeyPublish : Zgs.decode emptyKeyPublish = .ok (some (.publish [] [] 0)) := by
  simp [emptyKeyPublish, Zgs.decode, Zgs.decodePublish, Zgs.signature, Zgs.version, byteAt, slice, unpackI]

theorem decodes_emptyKeyPublish (routingId : Bytes) : Hub.Decodes [routingId, emptyKeyPublish] := by
  rintro _ _ ⟨⟩
  exact ⟨_, decode_emptyKeyPublish⟩

/-- The hub decodes the empty key, stores it, and raises when it tells its clients. -/
theorem emptyKeyPublish_poisons : ¬ ∀ h : Hub, h.Reachable → ∀ (env : Env)
    (messages : List (List Bytes)), (∀ m ∈ messages, Hub.Decodes m) → h.Serves env messages := by
  intro hall
  have hserves := hall Hub.init .init (Env.calm 0) [[[7], emptyKeyPublish]] (by
    intro m hm
    cases List.mem_singleton.1 hm
    exact decodes_emptyKeyPublish [7])
  obtain ⟨ds, h', hr, -⟩ := hserves
  have hraised : Node.raised (Hub.init.handleSocket (Env.calm 0) [[[7], emptyKeyPublish]]) =
      some .valueError := by rfl
  rw [hr] at hraised
  cases hraised

/-- A client asks the hub for what it knows. -/
def helloBytes : Bytes := Zgs.signature ++ [1, Zgs.version]

/-- A hub that holds one tuple. -/
def sampleHub : Hub := (Hub.init.publish (Env.calm 0) [0x61] [0x62] 0).toOption.getD Hub.init

theorem sampleHub_reachable : sampleHub.Reachable :=
  .publish (Env.calm 0) [0x61] [0x62] 0 .init ⟨by decide, by decide, by decide⟩ (by decide)
    (eq_ok_getD (by decide +kernel))

/-- The PUBLISH of a client that has just said HELLO. -/
def sampleDrain : List (List Bytes) := [[[7], helloBytes], [[7], Zgs.publishBytes [0x63] [0x64] 1000]]

/-- A hub with a tuple serves a HELLO and a PUBLISH, and a node that has just started announces its own tuple. -/
theorem gossip_tables_serve_sample :
    sampleHub.tuples.get [0x61] = some ([0x62], 0) ∧ sampleHub.Serves (Env.calm 0) sampleDrain ∧
    ∀ c, Client.start (GossipEnv.calm 0) Node.sampleA.cfg (encodeStr "tcp://10.0.0.1:4001".toList) 1 = .ok c →
      c.Announces := by
  have hfits : Zgs.Fits [0x63] [0x64] := ⟨by decide, by decide, by decide⟩
  have hdec : Zgs.decode (Zgs.publishBytes [0x63] [0x64] 1000) = .ok (some (.publish [0x63] [0x64] 1000)) :=
    Zgs.decode_publishBytes hfits (by decide)
  have hmem : ∀ m ∈ sampleDrain, m = [[7], helloBytes] ∨ m = [[7], Zgs.publishBytes [0x63] [0x64] 1000] := by
    intro m hm
    rcases List.mem_cons.1 hm with hm | hm
    · exact Or.inl hm
    · exact Or.inr (List.mem_singleton.1 hm)
  refine ⟨by decide +kernel, ?_, ?_⟩
  · have c : Client := ⟨Node.sampleA, Dict.empty, [], 0, Dict.empty, 0, []⟩
    refine ((gossip_tables_serve sampleHub c).1 sampleHub_reachable (Env.calm 0) sampleDrain ?_).2 ?_
    · intro m hm
      rcases hmem m hm with rfl | rfl
      · rintro _ _ ⟨⟩
        exact ⟨some .hello, rfl⟩
      · rintro _ _ ⟨⟩
        exact ⟨_, hdec⟩
    · intro m hm
      rcases hmem m hm with rfl | rfl
      · rintro _ _ key value ttl ⟨⟩ hpub
        cases hpub
      · rintro _ _ key value ttl ⟨⟩ hpub
        rw [hdec] at hpub
        cases hpub
        exact hfits
  · intro c hc
    exact ((gossip_tables_serve sampleHub c).2 (.start (GossipEnv.calm 0) Node.sampleA.cfg _ 1 (by decide) hc)).1

end Zre
