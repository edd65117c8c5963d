import Zre.Proofs.Rediscovery

/-!
# Proofs: what a node announces

An announcement is a HELLO and one PUBLISH for each tuple of the cache. So a node announces its own
endpoint under its own key as long as the cache holds it there, and the cache holds it as long as no hub
delivers another value under that key.
-/

namespace Zre

open Fallible

namespace Zgs

/-- What was encoded is decoded again. -/
theorem decode_encode {m : Message} {b : Bytes} (h : encode m = .ok b) : decode b = .ok (some m) := by
  cases m with
  | publish key value ttl =>
    by_cases hf : Fits key value
    · by_cases ht : ttl < 4294967296
      · rw [encode_publish hf ht] at h
        cases h
        exact decode_publishBytes hf ht
      · have hkey : ¬ (key.length < 1 ∨ maxStringBytes < key.length) := fun hk =>
          hk.elim (Nat.not_lt.2 hf.key_pos) (Nat.not_lt.2 hf.key_le)
        have hpack : packI ttl = .error .structError := by simp [packI, ht]
        unfold encode at h
        simp only [if_neg hkey, if_neg (Nat.not_lt.2 hf.value_le), hpack, bind_error] at h
        obtain ⟨-, -, h⟩ := bind_eq_ok_iff.1 h
        cases h
    · rw [encode_publish_error hf] at h
      cases h
  | hello | ping | pong | invalid =>
    cases h
    rfl

end Zgs

namespace Client

/-! ## One announcement -/

/-- The messages of an announcement. -/
def announcement (c : Client) : List Zgs.Message :=
  .hello :: c.tuples.entries.map fun e => .publish e.1 e.2.1.raw e.2.2

/-- The sends carry the first of the messages, and all of them when every send succeeds. -/
structure Carries (link : Nat) (messages : List Zgs.Message) (sent : List LinkSend) : Prop where
  link : ∀ s ∈ sent, s.link = link
  bodies : sent.map (fun s => Except.ok s.body) <+: messages.map Zgs.encode
  complete : (∀ s ∈ sent, s.sent = true) → sent.length = messages.length

theorem Carries.nil (link : Nat) : Carries link [] [] := ⟨by simp, by simp, by simp⟩

/-- A send that failed ends the announcement. -/
theorem Carries.failed {link : Nat} {m : Zgs.Message} {messages : List Zgs.Message} {body : Bytes}
    (hm : Zgs.encode m = .ok body) : Carries link (m :: messages) [⟨link, body, false⟩] := by
  refine ⟨by simp, ?_, fun h => ?_⟩
  · simp [hm]
  · cases h _ (List.mem_singleton.2 rfl)

theorem Carries.cons {link : Nat} {m : Zgs.Message} {messages : List Zgs.Message} {body : Bytes}
    {sent : List LinkSend} (hm : Zgs.encode m = .ok body) (h : Carries link messages sent) :
    Carries link (m :: messages) (⟨link, body, true⟩ :: sent) := by
  refine ⟨?_, ?_, fun hall => ?_⟩
  · intro s hs
    rcases List.mem_cons.1 hs with rfl | hs
    · rfl
    · exact h.link s hs
  · simpa [hm] using h.bodies
  · have hrest := h.complete fun s hs => hall s (List.mem_cons_of_mem _ hs)
    simp [hrest]

/-- Every send carries a message. -/
theorem Carries.mem {link : Nat} {messages : List Zgs.Message} {sent : List LinkSend}
    (h : Carries link messages sent) {s : LinkSend} (hs : s ∈ sent) :
    ∃ m ∈ messages, Zgs.encode m = .ok s.body := by
  have hmem := h.bodies.subset (List.mem_map_of_mem (f := fun s => Except.ok s.body) hs)
  exact List.mem_map.1 hmem

/-- A message goes out first, and what follows is not sent when it fails. -/
theorem sendLink_carries {env : GossipEnv} {c c' : Client} {link : Nat} {m : Zgs.Message} {body : Bytes}
    (hbody : Zgs.encode m = .ok body) {rest : Client → Except PyError Client} {ms : List Zgs.Message}
    (hrest : ∀ c1, rest c1 = .ok c' →
      ∃ sent, c' = { c1 with outbox := c1.outbox ++ sent } ∧ Carries link ms sent)
    (h : (if (c.sendLink env link body).1 = true then rest (c.sendLink env link body).2
      else .ok (c.sendLink env link body).2) = .ok c') :
    ∃ sent, c' = { c with outbox := c.outbox ++ sent } ∧ Carries link (m :: ms) sent := by
  simp only [sendLink] at h
  cases hsent : env.linkSend c.outbox.length with
  | false =>
    simp only [hsent] at h
    cases h
    exact ⟨_, rfl, Carries.failed hbody⟩
  | true =>
    simp only [hsent] at h
    obtain ⟨sent, rfl, hcarries⟩ := hrest _ h
    exact ⟨⟨link, body, true⟩ :: sent, by simp, hcarries.cons hbody⟩

theorem sendTuples_carries {env : GossipEnv} {c c' : Client} {link : Nat}
    {es : List (Bytes × TupleValue × Nat)} (h : sendTuples env link c es = .ok c') :
    ∃ sent, c' = { c with outbox := c.outbox ++ sent } ∧
      Carries link (es.map fun e => .publish e.1 e.2.1.raw e.2.2) sent := by
  induction es generalizing c with
  | nil =>
    cases h
    exact ⟨[], by simp, Carries.nil link⟩
  | cons e es ih =>
    obtain ⟨key, value, ttl⟩ := e
    obtain ⟨body, hbody, h⟩ := bind_eq_ok_iff.1 h
    exact sendLink_carries hbody (fun c1 h1 => ih h1) h

/-- An announcement only talks: first a HELLO, then the tuples in their order. -/
theorem announce_carries {env : GossipEnv} {c c' : Client} {link : Nat} (h : c.announce env link = .ok c') :
    ∃ sent, c' = { c with outbox := c.outbox ++ sent } ∧ Carries link c.announcement sent := by
  obtain ⟨body, hbody, h⟩ := bind_eq_ok_iff.1 h
  exact sendLink_carries hbody (fun c1 h1 => sendTuples_carries h1) h

/-! ## Talking to the hubs -/

/-- The body is a message of the codec, and a PUBLISH in it carries a cached tuple. -/
def Speaks (c : Client) (s : LinkSend) : Prop :=
  ∃ m, Zgs.encode m = .ok s.body ∧ ∀ key value ttl, m = .publish key value ttl →
    ∃ v, c.tuples.get key = some (v, ttl) ∧ v.raw = value

/-- Nothing happened but talk on the hub links, about the cached tuples. -/
structure Talks (c c' : Client) : Prop where
  chats : c.Chats c'
  outbox : ∀ s ∈ c'.outbox, s ∈ c.outbox ∨ c.Speaks s

theorem Talks.refl (c : Client) : c.Talks c := ⟨Chats.refl c, fun _ => Or.inl⟩

theorem Talks.trans {c c' c'' : Client} (h : c.Talks c') (h' : c'.Talks c'') : c.Talks c'' := by
  refine ⟨h.chats.trans h'.chats, fun s hs => ?_⟩
  rcases h'.outbox s hs with hs | ⟨m, hm, hpub⟩
  · exact h.outbox s hs
  · exact Or.inr ⟨m, hm, h.chats.2 ▸ hpub⟩

theorem announcement_speaks {c : Client} {m : Zgs.Message} (hm : m ∈ c.announcement) {s : LinkSend}
    (hs : Zgs.encode m = .ok s.body) : c.Speaks s := by
  refine ⟨m, hs, ?_⟩
  rintro key value ttl rfl
  rcases List.mem_cons.1 hm with hm | hm
  · cases hm
  · obtain ⟨e, he, heq⟩ := List.mem_map.1 hm
    cases heq
    exact ⟨e.2.1, (Dict.get_eq_some_iff _).2 he, rfl⟩

theorem talks_announce (env : GossipEnv) (c : Client) (link : Nat) :
    Ensures (c.announce env link) c.Talks := by
  intro c' h
  obtain ⟨sent, rfl, hcarries⟩ := announce_carries h
  refine ⟨⟨rfl, rfl⟩, fun s hs => ?_⟩
  rcases List.mem_append.1 hs with hs | hs
  · exact Or.inl hs
  · obtain ⟨m, hm, hbody⟩ := hcarries.mem hs
    exact Or.inr (announcement_speaks hm hbody)

theorem talks_redial (env : GossipEnv) (c : Client) (link : Nat) :
    Ensures (c.redial env link) c.Talks := by
  intro c' h
  have htalks := talks_announce env _ _ c' h
  exact ⟨⟨htalks.chats.1, htalks.chats.2⟩, htalks.outbox⟩

theorem talks_sendLink (env : GossipEnv) (c : Client) (link : Nat) {body : Bytes}
    (hbody : Zgs.encode .ping = .ok body) : c.Talks (c.sendLink env link body).2 := by
  refine ⟨⟨rfl, rfl⟩, fun s hs => ?_⟩
  rcases List.mem_append.1 hs with hs | hs
  · exact Or.inl hs
  · rw [List.mem_singleton.1 hs]
    exact Or.inr ⟨.ping, hbody, by rintro _ _ _ ⟨⟩⟩

theorem talks_pingLinks (env : GossipEnv) (c : Client) : Ensures (c.pingLinks env) c.Talks := by
  have hloop : ∀ (body : Bytes), Zgs.encode .ping = .ok body → ∀ (links : List Nat) (c' : Client),
      c'.Talks (links.foldl (fun c link => (c.sendLink env link body).2) c') := by
    intro body hbody links
    induction links with
    | nil => exact Talks.refl
    | cons link links ih => exact fun c' => (talks_sendLink env c' link hbody).trans (ih _)
  unfold pingLinks
  split
  · exact Ensures.ok (Talks.refl c)
  · intro c' h
    obtain ⟨body, hbody, h⟩ := bind_eq_ok_iff.1 h
    cases h
    have htalks := hloop body hbody c.links { c with nextPing := env.now + pingInterval }
    exact ⟨⟨htalks.chats.1, htalks.chats.2⟩, htalks.outbox⟩

theorem talks_maintain (env : GossipEnv) (c : Client) : Ensures (c.maintain env) c.Talks := by
  unfold maintain
  split
  · exact Ensures.ok (Talks.refl c)
  · refine (talks_pingLinks env c).bind fun c1 h1 => ?_
    refine Ensures.foldlM h1 fun c2 link _ h2 => ?_
    split
    · exact (talks_redial env c2 link).mono fun _ h3 => h2.trans h3
    · exact Ensures.ok h2

/-! ## The own tuple -/

/-- The key under which a node announces itself. -/
def ownKey (c : Client) : Bytes := encodeStr c.node.cfg.peerIdHex

/-- The runs of a node that announced `endpoint` when it started, with events that satisfy `P`. -/
inductive Runs (P : Client → GossipEnv → Client.Event → Prop) (cfg : Config) (endpoint : Bytes) :
    Client → Prop where
  | start {c : Client} (env : GossipEnv) (hubs : Nat) (hlen : endpoint.length ≤ Zgs.maxLongstrBytes)
      (h : Client.start env cfg endpoint hubs = .ok c) : Runs P cfg endpoint c
  | step {c c' : Client} (env : GossipEnv) (event : Client.Event) (hc : Runs P cfg endpoint c)
      (hp : P c env event) (h : c.step env event = .ok c') : Runs P cfg endpoint c'

theorem Runs.reachable {P : Client → GossipEnv → Client.Event → Prop} {cfg : Config} {endpoint : Bytes}
    {c : Client} (hc : Runs P cfg endpoint c) : c.Reachable := by
  induction hc with
  | start env hubs hlen h => exact .start env cfg endpoint hubs hlen h
  | step env event _ _ h ih => exact .step env event ih trivial h

/-- The own tuple is not unpublished. -/
def KeepsOwn (c : Client) (_ : GossipEnv) (event : Client.Event) : Prop := event ≠ .unpublish c.ownKey

/-- A tuple that a hub delivers under the own key has the own endpoint. -/
def EchoesOwn (endpoint : Bytes) (c : Client) (_ : GossipEnv) (event : Client.Event) : Prop :=
  ∀ link body value ttl, event = .hub link body →
    Zgs.decode body = .ok (some (.publish c.ownKey value ttl)) → value = endpoint

/-- The cache holds the endpoint under the own key, and so does every PUBLISH that was sent under it. -/
structure Bears (endpoint : Bytes) (c : Client) : Prop where
  cached : ∃ value ttl, c.tuples.get c.ownKey = some (value, ttl) ∧ value.raw = endpoint
  sent : ∀ s ∈ c.outbox, ∀ value ttl,
    Zgs.decode s.body = .ok (some (.publish c.ownKey value ttl)) → value = endpoint

theorem Bears.talks {endpoint : Bytes} {c c' : Client} (hb : c.Bears endpoint) (h : c.Talks c') :
    c'.Bears endpoint := by
  have hkey : c'.ownKey = c.ownKey := by rw [ownKey, h.chats.1]; rfl
  refine ⟨?_, fun s hs value ttl hdec => ?_⟩
  · rw [hkey, h.chats.2]
    exact hb.cached
  · rw [hkey] at hdec
    rcases h.outbox s hs with hs | ⟨m, hm, hpub⟩
    · exact hb.sent s hs value ttl hdec
    · rw [Zgs.decode_encode hm] at hdec
      cases hdec
      obtain ⟨v, hv, rfl⟩ := hpub _ _ _ rfl
      obtain ⟨own, ttl', hown, hraw⟩ := hb.cached
      rw [hown] at hv
      cases hv
      exact hraw

/-- A change of the node that leaves its configuration alone. -/
theorem Bears.node {endpoint : Bytes} {c : Client} (hb : c.Bears endpoint) {n : Node}
    (hcfg : n.cfg = c.node.cfg) : ({ c with node := n } : Client).Bears endpoint := by
  have hkey : ({ c with node := n } : Client).ownKey = c.ownKey := by
    simp only [ownKey, hcfg]
  refine ⟨?_, ?_⟩
  · rw [hkey]
    exact hb.cached
  · rw [hkey]
    exact hb.sent

/-- A tuple under another key, or with the own endpoint. -/
theorem Bears.store {endpoint : Bytes} {c : Client} (hb : c.Bears endpoint) {key value : Bytes} {ttl : Nat}
    (hown : key = c.ownKey → value = endpoint) :
    ({ c with tuples := c.tuples.set key (.bytes value, ttl) } : Client).Bears endpoint := by
  refine ⟨?_, hb.sent⟩
  by_cases hkey : key = c.ownKey
  · exact ⟨.bytes value, ttl, by rw [hkey]; exact Dict.get_set_self _ _ _, hown hkey⟩
  · obtain ⟨own, ttl', hget, hraw⟩ := hb.cached
    exact ⟨own, ttl', (Dict.get_set_ne _ _ hkey).trans hget, hraw⟩

/-- Every event keeps the own tuple, unless it is unpublished or a hub delivers another one. -/
theorem bears_step {endpoint : Bytes} {c c' : Client} {env : GossipEnv} {event : Client.Event}
    (ht : Tables c.node) (hb : c.Bears endpoint) (hkeeps : c.KeepsOwn env event)
    (hechoes : c.EchoesOwn endpoint env event) (h : c.step env event = .ok c') : c'.Bears endpoint := by
  have hnode : ∀ (d : Client) (input : Input), Tables d.node → d.Bears endpoint →
      (do return { d with node := ← d.node.step env.toEnv input } : Except PyError Client) = .ok c' →
      c'.Bears endpoint := by
    intro d input ht hd h
    obtain ⟨n', hn', h⟩ := bind_eq_ok_iff.1 h
    cases h
    exact hd.node (Node.moves_cfg (Node.moves_step env.toEnv ht input n' hn'))
  cases event with
  | unpublish key =>
    cases h
    have hkey : key ≠ c.ownKey := fun hk => hkeeps (hk ▸ rfl)
    refine ⟨?_, hb.sent⟩
    obtain ⟨own, ttl, hget, hraw⟩ := hb.cached
    exact ⟨own, ttl, ((Dict.get_pop _ _ _).trans (if_neg hkey)).trans hget, hraw⟩
  | node input =>
    cases input with
    | reap =>
      obtain ⟨c1, hc1, h⟩ := bind_eq_ok_iff.1 h
      have htalks := talks_maintain env c c1 hc1
      exact hnode c1 .reap (htalks.chats.1.symm ▸ ht) (hb.talks htalks) h
    | _ => exact hnode c _ ht hb h
  | hub link body =>
    obtain ⟨m, hdec, h⟩ := bind_eq_ok_iff.1 h
    have hb1 : ({ c with lastRx := c.lastRx.set link env.now } : Client).Bears endpoint := ⟨hb.cached, hb.sent⟩
    split at h
    · rename_i key value ttl
      split at h
      · obtain ⟨n', hn', h⟩ := bind_eq_ok_iff.1 h
        cases h
        have hown : key = c.ownKey → value = endpoint :=
          fun hkey => hechoes link body value ttl rfl (hkey ▸ hdec)
        have hstore := @Bears.store endpoint _ hb1 key value ttl hown
        exact hstore.node (Node.moves_cfg (Node.moves_gossipRequire env.toEnv c.node _ _ n' hn'))
      · cases h
        exact hb1
    · exact hb1.talks (talks_announce env _ link c' h)
    · cases h
      exact hb1

theorem bears_start {env : GossipEnv} {cfg : Config} {endpoint : Bytes} {hubs : Nat} {c : Client}
    (h : Client.start env cfg endpoint hubs = .ok c) : c.Bears endpoint := by
  refine Ensures.foldlM (I := Bears endpoint) ⟨⟨.text endpoint, 0, Dict.get_set_self _ _ _, rfl⟩, by simp⟩
    (fun c _ _ hb => ?_) c h
  have hopen : (c.openLink env.now).Bears endpoint := ⟨hb.cached, hb.sent⟩
  exact (talks_announce env _ _).mono fun _ htalks => hopen.talks htalks

/-- In every run in which the own tuple is not unpublished, and no hub delivers it with another endpoint,
the cache holds the endpoint of the start, and every PUBLISH under the own key carries it. -/
theorem Runs.bears {cfg : Config} {endpoint : Bytes} {c : Client}
    (hc : Runs (fun c env event => c.KeepsOwn env event ∧ c.EchoesOwn endpoint env event) cfg endpoint c) :
    c.Bears endpoint := by
  induction hc with
  | start env hubs _ h => exact bears_start h
  | step env event hc hp h ih => exact bears_step hc.reachable.node.tables ih hp.1 hp.2 h

theorem sample_start :
    Client.start (GossipEnv.calm 0) Node.sampleA.cfg sampleEndpoint 1 = .ok sample := by
  have hraised : Node.raised (Client.start (GossipEnv.calm 0) Node.sampleA.cfg sampleEndpoint 1) = none := by
    decide +kernel
  unfold sample
  cases hs : Client.start (GossipEnv.calm 0) Node.sampleA.cfg sampleEndpoint 1 with
  | ok c => rfl
  | error e =>
    rw [hs] at hraised
    cases hraised

theorem ownKey_sample : sample.ownKey = encodeStr (hex (List.replicate 15 0 ++ [1])) := by decide +kernel

/-- A hub announces another peer. -/
theorem bears_sample : (sample.after (GossipEnv.calm 0) (.hub 0 samplePublish)).Bears sampleEndpoint := by
  have hstart : Runs (fun c env event => c.KeepsOwn env event ∧ c.EchoesOwn sampleEndpoint env event)
      Node.sampleA.cfg sampleEndpoint sample :=
    .start (GossipEnv.calm 0) 1 (by decide +kernel) sample_start
  refine Runs.bears (.step (GossipEnv.calm 0) (.hub 0 samplePublish) hstart ⟨by rintro ⟨⟩, ?_⟩
    (step_after _ (by decide +kernel)))
  rintro _ _ value ttl ⟨⟩ hdec
  rw [decode_samplePublish, ownKey_sample] at hdec
  have hne : sampleKey ≠ encodeStr (hex (List.replicate 15 0 ++ [1])) := by decide +kernel
  exact absurd (by simpa using hdec : sampleKey = _ ∧ _).1 hne

/-- What a hub still knows of the node `00…01` from an earlier run on another port. -/
def samplePast : Bytes :=
  Zgs.publishBytes (encodeStr (hex (List.replicate 15 0 ++ [1]))) (encodeStr "tcp://10.0.0.1:9999".toList) 0

/-- The snapshot of a hub replaces the own tuple. -/
theorem not_bears : ¬ ∀ (cfg : Config) (endpoint : Bytes) (c : Client),
    Runs KeepsOwn cfg endpoint c → c.Bears endpoint := by
  intro hall
  have hrun : Runs KeepsOwn Node.sampleA.cfg sampleEndpoint
      (sample.after (GossipEnv.calm 0) (.hub 0 samplePast)) :=
    .step (GossipEnv.calm 0) (.hub 0 samplePast)
      (.start (GossipEnv.calm 0) 1 (by decide +kernel) sample_start) (by rintro ⟨⟩)
      (step_after _ (by decide +kernel))
  obtain ⟨value, ttl, hget, hraw⟩ := (hall _ _ _ hrun).cached
  have hpast : (sample.after (GossipEnv.calm 0) (.hub 0 samplePast)).tuples.get
      (sample.after (GossipEnv.calm 0) (.hub 0 samplePast)).ownKey =
      some (.bytes (encodeStr "tcp://10.0.0.1:9999".toList), 0) := by decide +kernel
  rw [hpast] at hget
  cases hget
  exact absurd hraw (by decide +kernel)

end Client

end Zre
