import Zre.Annals
import Zre.Proofs.Dissemination
import Zre.Proofs.Announcements

/-!
# Proofs: the two ends of a hub link

What the hub posts to its clients, and what a client says on its link. A client has one link; the heartbeat talks on
it, or closes it and opens a new one with an announcement.
-/

namespace Zre

open Fallible

/-! ## The hub's side of a link -/

theorem Zgs.published_eq_some {body key value : Bytes} :
    published body = some (key, value) ↔ ∃ ttl, decode body = .ok (some (.publish key value ttl)) := by
  constructor
  · intro h
    unfold published at h
    split at h <;> cases h
    exact ⟨_, by assumption⟩
  · rintro ⟨ttl, hdec⟩
    rw [published, hdec]

theorem Zgs.fits_of_encode {key value : Bytes} {ttl : Nat} {body : Bytes}
    (h : Zgs.encode (.publish key value ttl) = .ok body) : Zgs.Fits key value := by
  by_contra hf
  rw [Zgs.encode_publish_error hf] at h
  cases h

namespace Hub

/-- The frame carries a message, and a tuple in it is one of those that are said. -/
def Tells (said : Bytes → Bytes → Nat → Prop) (s : Bytes × Bytes) : Prop :=
  ∃ m, Zgs.encode m = .ok s.2 ∧ ∀ key value ttl, m = .publish key value ttl → said key value ttl

/-- The hub posted some frames to some of its clients. -/
structure Posts (said : Bytes → Bytes → Nat → Prop) (h h' : Hub) : Prop where
  clients : h'.clients = h.clients
  outbox : ∃ frames, h'.outbox = h.outbox ++ frames ∧ ∀ s ∈ frames, s.1 ∈ h.clients ∧ Tells said s

/-- The tuple of a message. -/
def Carried (frames : List Bytes) (key value : Bytes) (ttl : Nat) : Prop :=
  ∃ id body, frames = [id, body] ∧ Zgs.decode body = .ok (some (.publish key value ttl))

/-- A stored tuple, as a snapshot tells it. -/
def Stored (h : Hub) (key value : Bytes) (ttl : Nat) : Prop :=
  ttl = 0 ∧ ∃ expiry, h.tuples.get key = some (value, expiry)

variable {env : Env} {h h' : Hub} {said : Bytes → Bytes → Nat → Prop}

theorem Posts.refl (h : Hub) : Posts said h h := ⟨rfl, [], by simp, by simp⟩

theorem Posts.mono {said' : Bytes → Bytes → Nat → Prop} (hp : Posts said h h')
    (hsaid : ∀ key value ttl, said key value ttl → said' key value ttl) : Posts said' h h' := by
  obtain ⟨hclients, frames, hout, hframes⟩ := hp
  refine ⟨hclients, frames, hout, fun s hs => ?_⟩
  obtain ⟨hid, m, hm, hpub⟩ := hframes s hs
  exact ⟨hid, m, hm, fun key value ttl h => hsaid _ _ _ (hpub key value ttl h)⟩

theorem posts_append (h : Hub) {frames : List (Bytes × Bytes)}
    (hf : ∀ s ∈ frames, s.1 ∈ h.clients ∧ Tells said s) :
    Posts said h { h with outbox := h.outbox ++ frames } := ⟨rfl, frames, rfl, hf⟩

theorem posts_sendEach {m : Zgs.Message} {ids : List Bytes} (hids : ∀ id ∈ ids, id ∈ h.clients)
    (hm : ∀ key value ttl, m = .publish key value ttl → said key value ttl) :
    Ensures (h.sendEach m ids) (Posts said h) := by
  intro h' hs
  cases hbody : Zgs.encode m with
  | ok body =>
    rw [sendEach_ok hbody] at hs
    cases hs
    refine posts_append h fun s hs => ?_
    obtain ⟨id, hid, rfl⟩ := List.mem_map.1 hs
    exact ⟨hids id hid, m, hbody, hm⟩
  | error e =>
    cases ids with
    | nil =>
      cases hs
      exact Posts.refl h
    | cons id ids =>
      rw [sendEach_error hbody h (List.cons_ne_nil id ids)] at hs
      cases hs

theorem posts_snapshot (hs : h.Sound) {id : Bytes} (hid : id ∈ h.clients) :
    Ensures (h.snapshot id) (Posts h.Stored h) := by
  intro h' hh'
  rw [snapshot_ok hs] at hh'
  cases hh'
  refine posts_append h fun s hmem => ?_
  obtain ⟨e, he, rfl⟩ := List.mem_map.1 hmem
  refine ⟨hid, _, Zgs.encode_publish (hs.of_mem he) (by decide), ?_⟩
  rintro key value ttl ⟨⟩
  exact ⟨rfl, e.2.2, h.tuples.get_eq_some_iff.2 he⟩

theorem posts_accept {key value : Bytes} {ttl : Nat} (hnew : said key value ttl) :
    Ensures (h.accept env key value ttl) (Posts said h) := by
  unfold accept
  split
  · exact Ensures.ok (Posts.refl h)
  · have hsent : ∀ h1 : Hub, h1.clients = h.clients → h1.outbox = h.outbox →
        Ensures (h1.sendEach (.publish key value ttl) (env.order h.clients)) (Posts said h) := by
      intro h1 hclients hout h' hh'
      have hids : ∀ id ∈ env.order h.clients, id ∈ h1.clients := by
        intro id hid
        rw [hclients]
        exact (env.order_perm h.clients).mem_iff.1 hid
      have hp : Posts said h1 h' := posts_sendEach hids (fun _ _ _ h => by cases h; exact hnew) h' hh'
      exact ⟨hp.clients.trans hclients, hout ▸ hclients ▸ hp.outbox⟩
    exact hsent _ rfl rfl

theorem mem_clients_addClient (h : Hub) (id x : Bytes) :
    x ∈ (h.addClient id).clients ↔ x ∈ h.clients ∨ x = id := by
  unfold addClient
  simp only []
  split
  · rename_i hid
    exact ⟨Or.inl, fun hx => hx.elim (fun hx => hx) fun hx => hx ▸ hid⟩
  · simp

/-- A message enters its sender, and then some frames are posted: the tuple of the message, and what the hub holds. -/
theorem handleMessage_posts (hs : h.Sound) {frames : List Bytes} :
    Ensures (h.handleMessage env frames) fun h' => h' = h ∨ ∃ id body, frames = [id, body] ∧
      Posts (fun key value ttl => Carried frames key value ttl ∨ h.Stored key value ttl) (h.addClient id) h' := by
  unfold handleMessage
  split
  swap
  · exact Ensures.ok (Or.inl rfl)
  rename_i id body
  intro h' hh'
  obtain ⟨m, hdec, hh'⟩ := bind_eq_ok_iff.1 hh'
  refine Or.inr ⟨id, body, rfl, ?_⟩
  have hid : ∀ x ∈ [id], x ∈ (h.addClient id).clients := by
    intro x hx
    rw [List.mem_singleton.1 hx]
    exact mem_addClient h id
  have hs' : (h.addClient id).Sound := hs
  cases m with
  | none =>
    cases hh'
    exact Posts.refl _
  | some m =>
    cases m with
    | hello => exact (posts_snapshot hs' (mem_addClient h id) h' hh').mono fun _ _ _ => Or.inr
    | publish key value ttl => exact posts_accept (Or.inl ⟨id, body, rfl, hdec⟩) h' hh'
    | ping => exact posts_sendEach hid (by rintro _ _ _ ⟨⟩) h' hh'
    | pong =>
      cases hh'
      exact Posts.refl _
    | invalid => exact posts_sendEach hid (by rintro _ _ _ ⟨⟩) h' hh'

/-! ## The frames of one client -/

theorem mem_posted {id : Bytes} {s : Bytes × Bytes} : s ∈ h.posted id ↔ s ∈ h.outbox ∧ s.1 = id := by
  simp [posted]

theorem posted_eq_nil {id : Bytes} (hall : ∀ s ∈ h.outbox, s.1 ∈ h.clients) (hid : id ∉ h.clients) :
    h.posted id = [] := by
  refine List.filter_eq_nil_iff.2 fun s hs hsid => hid ?_
  rw [← of_decide_eq_true hsid]
  exact hall s hs

theorem posted_grows {frames : List (Bytes × Bytes)} (hout : h'.outbox = h.outbox ++ frames) (id : Bytes) :
    h.posted id <+: h'.posted id := by
  unfold posted
  rw [hout, List.filter_append]
  exact List.prefix_append _ _

/-- What a client was told last stands in its own frames. -/
theorem lastPublished_eq (h : Hub) (id key : Bytes) :
    h.lastPublished id key = NoticeBoard.lastTold ((h.posted id).filterMap tells) id key := by
  have htold : ∀ l : List (Bytes × Bytes), NoticeBoard.toldOf (l.filterMap tells) id key =
      NoticeBoard.toldOf ((l.filter fun s => s.1 = id).filterMap tells) id key := by
    intro l
    unfold NoticeBoard.toldOf
    rw [List.filterMap_filterMap, List.filterMap_filterMap, List.filterMap_filter]
    refine List.filterMap_congr fun s _ => ?_
    by_cases hid : s.1 = id
    · simp [hid]
    · have hother : ∀ t, tells s = some t → t.1 = s.1 := by
        intro t ht
        unfold tells at ht
        split at ht <;> cases ht
        rfl
      cases ht : tells s with
      | none => simp
      | some t =>
        have hne : ¬ (t.1 = id ∧ t.2.1 = key) := fun h => hid ((hother t ht) ▸ h.1)
        simp [hid, hne]
  unfold lastPublished NoticeBoard.lastTold posted
  rw [htold]

end Hub

/-! ## The client's side of a link -/

namespace Client

/-- The frame carries a message other than INVALID, on one of the first links. -/
def Valid (links : Nat) (s : LinkSend) : Prop := s.link < links ∧ ∃ m, Zgs.encode m = .ok s.body ∧ m ≠ .invalid

/-- The client has one link, and every frame that it sent carries a message, on a link that was opened. -/
structure Wired (c : Client) : Prop where
  single : ∃ link, c.links = [link] ∧ link < c.nextLink
  sent : ∀ s ∈ c.outbox, Valid c.nextLink s

/-- The whole announcement went out on the link. -/
def Announced (c : Client) (link : Nat) : Prop :=
  ∀ m ∈ c.announcement, ∃ body ∈ c.spoken link, Zgs.encode m = .ok body

/-- The client talks on its link, or closes it and opens a new one. -/
structure Calls (env : GossipEnv) (c c' : Client) : Prop where
  tuples : c'.tuples = c.tuples
  speaks : ∀ s ∈ c'.outbox, s ∈ c.outbox ∨ c.Speaks s
  outbox : ∃ sent, c'.outbox = c.outbox ++ sent ∧ ∀ s ∈ sent, Valid c'.nextLink s
  links : c'.links = c.links ∧ c'.nextLink = c.nextLink ∨
    c'.links = [c.nextLink] ∧ c'.nextLink = c.nextLink + 1 ∧ (env.Sends → c'.Announced c.nextLink)

variable {env : GossipEnv} {c c' : Client} {link : Nat}

theorem mem_spoken {body : Bytes} :
    body ∈ c.spoken link ↔ ∃ s ∈ c.outbox, s.link = link ∧ s.sent = true ∧ s.body = body := by
  simp [spoken, and_assoc]

theorem spoken_grows {sent : List LinkSend} (hout : c'.outbox = c.outbox ++ sent) (link : Nat) :
    c.spoken link <+: c'.spoken link := by
  unfold spoken
  rw [hout, List.filter_append, List.map_append]
  exact List.prefix_append _ _

/-- Nothing was sent on a link that is not open yet. -/
theorem Wired.spoken_eq_nil (hw : c.Wired) (hlink : c.nextLink ≤ link) : c.spoken link = [] := by
  rw [List.eq_nil_iff_forall_not_mem]
  intro body hbody
  obtain ⟨s, hs, rfl, -⟩ := mem_spoken.1 hbody
  exact absurd (hw.sent s hs).1 (by omega)

theorem Valid.mono {links links' : Nat} {s : LinkSend} (h : Valid links s) (hle : links ≤ links') :
    Valid links' s := ⟨h.1.trans_le hle, h.2⟩

theorem Carries.valid {links : Nat} {sent : List LinkSend} (h : Carries link c.announcement sent)
    (hlink : link < links) : ∀ s ∈ sent, Valid links s := by
  intro s hs
  obtain ⟨m, hm, hbody⟩ := h.mem hs
  refine ⟨(h.link s hs).symm ▸ hlink, m, hbody, ?_⟩
  rintro rfl
  rcases List.mem_cons.1 hm with hm | hm
  · cases hm
  · obtain ⟨e, -, heq⟩ := List.mem_map.1 hm
    cases heq

theorem Wired.calls (hw : c.Wired) (h : c.Calls env c') : c'.Wired := by
  obtain ⟨sent, hout, hvalid⟩ := h.outbox
  have hle : c.nextLink ≤ c'.nextLink := by
    rcases h.links with ⟨-, hnext⟩ | ⟨-, hnext, -⟩ <;> omega
  constructor
  · rcases h.links with ⟨hlinks, hnext⟩ | ⟨hlinks, hnext, -⟩
    · rw [hlinks, hnext]
      exact hw.single
    · exact ⟨c.nextLink, hlinks, by omega⟩
  · intro s hs
    rw [hout] at hs
    rcases List.mem_append.1 hs with hold | hnew
    · exact (hw.sent s hold).mono hle
    · exact hvalid s hnew

/-- Where every send succeeds, nothing that is said on a link is lost. -/
def Flows (c c' : Client) : Prop := ∃ sent, c'.outbox = c.outbox ++ sent ∧ ∀ s ∈ sent, s.sent = true

theorem Flows.refl (c : Client) : c.Flows c := ⟨[], by simp, by simp⟩

theorem Flows.trans {c'' : Client} (h : c.Flows c') (h' : c'.Flows c'') : c.Flows c'' := by
  obtain ⟨sent, hout, hall⟩ := h
  obtain ⟨sent', hout', hall'⟩ := h'
  refine ⟨sent ++ sent', by rw [hout', hout, List.append_assoc], fun s hs => ?_⟩
  exact (List.mem_append.1 hs).elim (hall s) (hall' s)

theorem flows_sendLink (hsends : env.Sends) (c : Client) (link : Nat) (body : Bytes) :
    c.Flows (c.sendLink env link body).2 := by
  refine ⟨[⟨link, body, env.linkSend c.outbox.length⟩], rfl, fun s hs => ?_⟩
  rw [List.mem_singleton.1 hs]
  exact hsends _

theorem flows_sendTuples (hsends : env.Sends) (es : List (Bytes × TupleValue × Nat)) (c : Client) :
    Ensures (sendTuples env link c es) c.Flows := by
  induction es generalizing c with
  | nil => exact Ensures.ok (Flows.refl c)
  | cons e es ih =>
    intro c' h
    obtain ⟨body, -, h⟩ := bind_eq_ok_iff.1 h
    simp only [] at h
    split at h
    · exact (flows_sendLink hsends c link body).trans (ih _ c' h)
    · cases h
      exact flows_sendLink hsends c link body

theorem flows_announce (hsends : env.Sends) (c : Client) (link : Nat) :
    Ensures (c.announce env link) c.Flows := by
  intro c' h
  obtain ⟨body, -, h⟩ := bind_eq_ok_iff.1 h
  simp only [] at h
  split at h
  · exact (flows_sendLink hsends c link body).trans (flows_sendTuples hsends _ _ c' h)
  · cases h
    exact flows_sendLink hsends c link body

/-- An announcement on a link that never fails goes out as a whole. -/
theorem announce_announced (hsends : env.Sends) (h : c.announce env link = .ok c') : c'.Announced link := by
  obtain ⟨sent, rfl, hcarries⟩ := announce_carries h
  obtain ⟨sent', hout, hall⟩ := flows_announce hsends c link _ h
  obtain rfl : sent = sent' := List.append_cancel_left hout
  have hbodies : sent.map (fun s => Except.ok s.body) = c.announcement.map Zgs.encode := by
    refine hcarries.bodies.eq_of_length ?_
    rw [List.length_map, List.length_map, hcarries.complete hall]
  intro m hm
  have hmem : Zgs.encode m ∈ sent.map fun s => Except.ok s.body := hbodies ▸ List.mem_map_of_mem hm
  obtain ⟨s, hs, hbody⟩ := List.mem_map.1 hmem
  exact ⟨s.body, mem_spoken.2 ⟨s, List.mem_append_right _ hs, hcarries.link s hs, hall s hs, rfl⟩, hbody.symm⟩

theorem calls_announce (env : GossipEnv) (c : Client) (hlink : link < c.nextLink) :
    Ensures (c.announce env link) (c.Calls env) := by
  intro c' h
  have htalks := talks_announce env c link c' h
  obtain ⟨sent, rfl, hcarries⟩ := announce_carries h
  exact ⟨htalks.chats.2, htalks.outbox, ⟨sent, rfl, hcarries.valid hlink⟩, Or.inl ⟨rfl, rfl⟩⟩

/-- A redialled link is a new one, with an announcement. -/
theorem calls_redial (env : GossipEnv) (hlinks : c.links = [link]) :
    Ensures (c.redial env link) (c.Calls env) := by
  intro c' h
  have htalks := talks_redial env c link c' h
  have hannounced := fun hsends : env.Sends => announce_announced hsends h
  obtain ⟨sent, rfl, hcarries⟩ := announce_carries h
  refine ⟨htalks.chats.2, htalks.outbox, ⟨sent, rfl, hcarries.valid (Nat.lt_succ_self c.nextLink)⟩,
    Or.inr ⟨?_, rfl, hannounced⟩⟩
  show c.links.erase link ++ [c.nextLink] = _
  rw [hlinks, List.erase_cons_head]
  rfl

theorem Calls.refl (env : GossipEnv) (c : Client) : c.Calls env c :=
  ⟨rfl, fun _ => Or.inl, ⟨[], by simp, by simp⟩, Or.inl ⟨rfl, rfl⟩⟩

theorem Calls.trans_talk {c'' : Client} (h : c.Talks c') (hout : ∃ sent, c'.outbox = c.outbox ++ sent ∧
      ∀ s ∈ sent, Valid c.nextLink s) (hlinks : c'.links = c.links) (hnext : c'.nextLink = c.nextLink)
    (h' : c'.Calls env c'') : c.Calls env c'' := by
  obtain ⟨sent, hout, hvalid⟩ := hout
  obtain ⟨sent', hout', hvalid'⟩ := h'.outbox
  have hle : c.nextLink ≤ c''.nextLink := by
    rcases h'.links with ⟨-, hnext'⟩ | ⟨-, hnext', -⟩ <;> omega
  refine ⟨h'.tuples.trans h.chats.2, fun s hs => ?_,
    ⟨sent ++ sent', by rw [hout', hout, List.append_assoc], fun s hs => ?_⟩, ?_⟩
  · rcases h'.speaks s hs with hs | ⟨m, hm, hpub⟩
    · exact h.outbox s hs
    · exact Or.inr ⟨m, hm, h.chats.2 ▸ hpub⟩
  · rcases List.mem_append.1 hs with hs | hs
    · exact (hvalid s hs).mono hle
    · exact hvalid' s hs
  · rw [← hlinks, ← hnext]
    exact h'.links

theorem calls_pingLinks (env : GossipEnv) (hlinks : c.links = [link]) (hlink : link < c.nextLink) :
    Ensures (c.pingLinks env) fun c' => c.Talks c' ∧ (∃ sent, c'.outbox = c.outbox ++ sent ∧
      ∀ s ∈ sent, Valid c.nextLink s) ∧ c'.links = c.links ∧ c'.nextLink = c.nextLink := by
  intro c' h
  refine ⟨talks_pingLinks env c c' h, ?_⟩
  unfold pingLinks at h
  split at h
  · cases h
    exact ⟨⟨[], by simp, by simp⟩, rfl, rfl⟩
  · obtain ⟨body, hbody, h⟩ := bind_eq_ok_iff.1 h
    rw [hlinks] at h
    cases h
    refine ⟨⟨[⟨link, body, env.linkSend c.outbox.length⟩], rfl, fun s hs => ?_⟩, hlinks.symm, rfl⟩
    rw [List.mem_singleton.1 hs]
    exact ⟨hlink, .ping, hbody, by rintro ⟨⟩⟩

/-- The gossip heartbeat talks on the link, or redials it. -/
theorem calls_maintain (env : GossipEnv) (hw : c.Wired) : Ensures (c.maintain env) (c.Calls env) := by
  obtain ⟨link, hlinks, hlink⟩ := hw.single
  intro c' h
  unfold maintain at h
  rw [if_neg (by rw [hlinks]; exact List.cons_ne_nil link [])] at h
  obtain ⟨c1, hc1, h⟩ := bind_eq_ok_iff.1 h
  obtain ⟨htalks, hout, hlinks1, hnext1⟩ := calls_pingLinks env hlinks hlink c1 hc1
  refine Calls.trans_talk htalks hout hlinks1 hnext1 ?_
  rw [hlinks1, hlinks, List.foldlM_cons] at h
  obtain ⟨c2, hc2, h⟩ := bind_eq_ok_iff.1 h
  cases h
  split at hc2
  · exact calls_redial env (hlinks1.trans hlinks) c' hc2
  · cases hc2
    exact Calls.refl env c'

theorem start_wired {cfg : Config} {endpoint : Bytes} (h : Client.start env cfg endpoint 1 = .ok c) :
    c.Wired ∧ (env.Sends → c.Announced 0) := by
  unfold Client.start at h
  rw [List.range_one, List.foldlM_cons] at h
  obtain ⟨c1, hc1, h⟩ := bind_eq_ok_iff.1 h
  cases h
  have hannounced := fun hsends : env.Sends => announce_announced hsends hc1
  obtain ⟨sent, rfl, hcarries⟩ := announce_carries hc1
  refine ⟨⟨⟨0, rfl, Nat.lt_succ_self 0⟩, fun s hs => ?_⟩, hannounced⟩
  have hs : s ∈ sent := by simpa [openLink] using hs
  exact hcarries.valid (Nat.lt_succ_self 0) s hs

/-- A client starts with its own tuple, one link, and talk about the tuple. -/
theorem start_shape {cfg : Config} {endpoint : Bytes} (h : Client.start env cfg endpoint 1 = .ok c) :
    c.node = Node.init cfg ∧ c.tuples = Dict.empty.set (encodeStr cfg.peerIdHex) (.text endpoint, 0) ∧
      c.links = [0] ∧ ∀ s ∈ c.outbox, c.Speaks s := by
  unfold Client.start at h
  rw [List.range_one, List.foldlM_cons] at h
  obtain ⟨c1, hc1, h⟩ := bind_eq_ok_iff.1 h
  cases h
  have htalks := talks_announce env _ _ c hc1
  obtain ⟨sent, rfl, -⟩ := announce_carries hc1
  refine ⟨rfl, rfl, rfl, fun s hs => ?_⟩
  exact (htalks.outbox s hs).resolve_left List.not_mem_nil

/-- A frame of the hub is a tuple, which is cached and wakes the node when it is news, or it is no more than talk. -/
theorem receive_shape {body : Bytes} (hlink : link < c.nextLink) (h : c.receive env link body = .ok c') :
    (∃ key value ttl n, Zgs.decode body = .ok (some (.publish key value ttl)) ∧
      (c.isNews key value = true ∧ c.node.gossipRequire env.toEnv (bdec key) (bdec value) = .ok n ∧
          c' = { c with
            lastRx := c.lastRx.set link env.now
            tuples := c.tuples.set key (.bytes value, ttl)
            node := n } ∨
        c.isNews key value = false ∧ c' = { c with lastRx := c.lastRx.set link env.now })) ∨
    (∀ key value ttl, Zgs.decode body ≠ .ok (some (.publish key value ttl))) ∧
      c.Calls env c' ∧ c'.links = c.links ∧ c'.nextLink = c.nextLink ∧ c'.node = c.node := by
  obtain ⟨m, hdec, h⟩ := bind_eq_ok_iff.1 h
  have hquiet : ∀ d : Client, d.node = c.node → d.tuples = c.tuples → d.outbox = c.outbox → d.links = c.links →
      d.nextLink = c.nextLink → d.Calls env c' → c.Calls env c' := by
    intro d hnode htuples hout hlinks hnext hcalls
    refine Calls.trans_talk ⟨⟨hnode, htuples⟩, fun s hs => Or.inl (hout ▸ hs)⟩ ⟨[], by rw [hout]; simp, by simp⟩
      hlinks hnext hcalls
  split at h
  · rename_i key value ttl
    split at h
    · rename_i hnew
      obtain ⟨n, hn, h⟩ := bind_eq_ok_iff.1 h
      cases h
      exact Or.inl ⟨key, value, ttl, n, hdec, Or.inl ⟨hnew, hn, rfl⟩⟩
    · rename_i hold
      cases h
      exact Or.inl ⟨key, value, ttl, c.node, hdec, Or.inr ⟨Bool.eq_false_iff.2 hold, rfl⟩⟩
  · refine Or.inr ⟨fun key value ttl hpub => ?_, ?_⟩
    · rw [hdec] at hpub
      cases hpub
    have hcalls := calls_announce env ({ c with lastRx := c.lastRx.set link env.now } : Client) hlink c' h
    obtain ⟨sent, rfl, -⟩ := announce_carries h
    exact ⟨hquiet { c with lastRx := c.lastRx.set link env.now } rfl rfl rfl rfl rfl hcalls, rfl, rfl, rfl⟩
  · rename_i hno _
    cases h
    refine Or.inr ⟨fun key value ttl h => hno key value ttl ?_, ?_, rfl, rfl, rfl⟩
    · rw [hdec] at h
      exact Except.ok.inj h
    · exact ⟨rfl, fun s => Or.inl, ⟨[], by simp, by simp⟩, Or.inl ⟨rfl, rfl⟩⟩

/-- A tuple of the hub is in the cache afterwards, and the other tuples are the same. -/
theorem receive_tuples {body key value : Bytes} {ttl : Nat} (hlink : link < c.nextLink)
    (hdec : Zgs.decode body = .ok (some (.publish key value ttl))) (h : c.receive env link body = .ok c') (k : Bytes) :
    (c'.tuples.get k).map Prod.fst = if key = k then some (.bytes value) else (c.tuples.get k).map Prod.fst := by
  rcases receive_shape hlink h with ⟨_, _, _, n, hdec', hcases⟩ | ⟨hno, -⟩
  · rw [hdec] at hdec'
    cases hdec'
    rcases hcases with ⟨-, -, rfl⟩ | ⟨hold, rfl⟩
    · show ((c.tuples.set key (.bytes value, ttl)).get k).map Prod.fst = _
      rw [Dict.get_set]
      by_cases hk : key = k
      · rw [if_pos hk, if_pos hk]
        rfl
      · rw [if_neg hk, if_neg hk]
    · show (c.tuples.get k).map Prod.fst = _
      split
      · rename_i hk
        rw [← hk]
        simpa [isNews] using hold
      · rfl
  · exact absurd hdec (hno key value ttl)

/-- What happens at the node happens to the node. -/
theorem node_step {input : Input} (h : c.step env (.node input) = .ok c') :
    c.node.step env.toEnv input = .ok c'.node := by
  have hnode : ∀ (x : Except PyError Node) (d : Client),
      (do return { d with node := ← x } : Except PyError Client) = .ok c' → x = .ok c'.node := by
    intro x d h
    obtain ⟨n, hx, h⟩ := bind_eq_ok_iff.1 h
    cases h
    exact hx
  cases input with
  | reap =>
    obtain ⟨c1, hc1, h⟩ := bind_eq_ok_iff.1 h
    rw [← (chats_maintain env c c1 hc1).1]
    exact hnode _ c1 h
  | _ => exact hnode _ c h

/-- What happens at the node leaves the cache alone, and the link only changes with the heartbeat. -/
theorem calls_node (hw : c.Wired) {input : Input} : Ensures (c.step env (.node input)) (c.Calls env) := by
  have hnode : ∀ (d : Client) (x : Except PyError Node), c.Calls env d →
      Ensures (do return { d with node := ← x }) (c.Calls env) := by
    intro d x hcalls c' h
    obtain ⟨n, -, h⟩ := bind_eq_ok_iff.1 h
    cases h
    exact ⟨hcalls.tuples, hcalls.speaks, hcalls.outbox, hcalls.links⟩
  cases input with
  | reap => exact (calls_maintain env hw).bind fun c1 h1 => hnode c1 _ h1
  | _ => exact hnode c _ (Calls.refl env c)

theorem Wired.receive (hw : c.Wired) (hlink : link < c.nextLink) {body : Bytes}
    (h : c.receive env link body = .ok c') : c'.Wired ∧ c'.links = c.links ∧ c'.nextLink = c.nextLink ∧
      c.outbox <+: c'.outbox := by
  rcases receive_shape hlink h with ⟨_, _, _, n, -, ⟨-, -, rfl⟩ | ⟨-, rfl⟩⟩ | ⟨-, hcalls, hlinks, hnext, -⟩
  · exact ⟨⟨hw.single, hw.sent⟩, rfl, rfl, List.prefix_rfl⟩
  · exact ⟨⟨hw.single, hw.sent⟩, rfl, rfl, List.prefix_rfl⟩
  · obtain ⟨sent, hout, -⟩ := hcalls.outbox
    exact ⟨hw.calls hcalls, hlinks, hnext, hout ▸ List.prefix_append _ _⟩

/-! ## What a client relays -/

/-- The frame went out, and its tuple, if it has one, is cached and went over a link that is open afterwards. -/
def Relayed (c c' : Client) (s : LinkSend) : Prop :=
  s.sent = true ∧ ∀ key value, Zgs.published s.body = some (key, value) →
    s.link ∈ c'.links ∧ ∃ v ttl, c.tuples.get key = some (v, ttl) ∧ v.raw = value

/-- Two frames with one key have one value. -/
theorem Relayed.functional {s t : LinkSend} (hs : c.Relayed c' s) (ht : c.Relayed c' t) {key v w : Bytes}
    (hv : Zgs.published s.body = some (key, v)) (hw : Zgs.published t.body = some (key, w)) : v = w := by
  obtain ⟨-, v', ttl, hk, rfl⟩ := hs.2 key v hv
  obtain ⟨-, w', ttl', hk', rfl⟩ := ht.2 key w hw
  rw [hk] at hk'
  cases hk'
  rfl

/-- What the client has said since are frames that it relays. -/
def Relays (c c' : Client) : Prop := ∃ sent, c'.outbox = c.outbox ++ sent ∧ ∀ s ∈ sent, c.Relayed c' s

theorem relays_of_eq (h : c'.outbox = c.outbox) : c.Relays c' := ⟨[], by rw [h, List.append_nil], by simp⟩

theorem relays_announce (hsends : env.Sends) (hlink : link ∈ c.links) : Ensures (c.announce env link) c.Relays := by
  intro c' h
  obtain ⟨sent, rfl, hcarries⟩ := announce_carries h
  obtain ⟨sent', hout, hall⟩ := flows_announce hsends c link _ h
  obtain rfl : sent = sent' := List.append_cancel_left hout
  refine ⟨sent, rfl, fun s hs => ⟨hall s hs, fun key value hpub => ⟨(hcarries.link s hs).symm ▸ hlink, ?_⟩⟩⟩
  obtain ⟨m, hm, hbody⟩ := hcarries.mem hs
  obtain ⟨_, hm', hspeaks⟩ := announcement_speaks hm hbody
  obtain ⟨ttl, hdec⟩ := Zgs.published_eq_some.1 hpub
  rw [Zgs.decode_encode hm'] at hdec
  cases hdec
  obtain ⟨v, hv, hraw⟩ := hspeaks key value ttl rfl
  exact ⟨v, ttl, hv, hraw⟩

/-- Before a client announces itself on a new link, it may still have said something else on the old one. -/
theorem Relays.before {d : Client} (htuples : d.tuples = c.tuples) (hout : ∃ sent, d.outbox = c.outbox ++ sent ∧
      ∀ s ∈ sent, s.sent = true ∧ Zgs.published s.body = none) (h : d.Relays c') : c.Relays c' := by
  obtain ⟨sent, hout, hsent⟩ := hout
  obtain ⟨sent', hout', hsent'⟩ := h
  refine ⟨sent ++ sent', by rw [hout', hout, List.append_assoc], fun s hs => ?_⟩
  rcases List.mem_append.1 hs with hs | hs
  · refine ⟨(hsent s hs).1, fun key value hpub => ?_⟩
    rw [(hsent s hs).2] at hpub
    cases hpub
  · rw [Relayed, ← htuples]
    exact hsent' s hs

theorem relays_pingLinks (hsends : env.Sends) (hlinks : c.links = [link]) : Ensures (c.pingLinks env) fun d =>
    d.tuples = c.tuples ∧ d.links = c.links ∧ ∃ sent, d.outbox = c.outbox ++ sent ∧
      ∀ s ∈ sent, s.sent = true ∧ Zgs.published s.body = none := by
  intro d h
  unfold pingLinks at h
  split at h
  · cases h
    exact ⟨rfl, rfl, [], by simp, by simp⟩
  · obtain ⟨body, hbody, h⟩ := bind_eq_ok_iff.1 h
    rw [hlinks] at h
    cases h
    refine ⟨rfl, hlinks.symm, [⟨link, body, env.linkSend c.outbox.length⟩], rfl, fun s hs => ?_⟩
    obtain rfl := List.mem_singleton.1 hs
    exact ⟨hsends _, by rw [Zgs.published, Zgs.decode_encode hbody]⟩

theorem relays_redial (hsends : env.Sends) : Ensures (c.redial env link) c.Relays := by
  intro c' h
  refine (relays_announce hsends ?_ c' h).before rfl ⟨[], (List.append_nil _).symm, by simp⟩
  exact List.mem_append_right _ (List.mem_singleton_self _)

theorem relays_maintain (hsends : env.Sends) (hw : c.Wired) : Ensures (c.maintain env) c.Relays := by
  obtain ⟨link, hlinks, -⟩ := hw.single
  intro c' h
  unfold maintain at h
  rw [if_neg (by rw [hlinks]; exact List.cons_ne_nil link [])] at h
  obtain ⟨d, hd, h⟩ := bind_eq_ok_iff.1 h
  obtain ⟨htuples, hlinks', hout⟩ := relays_pingLinks hsends hlinks d hd
  rw [hlinks', hlinks, List.foldlM_cons] at h
  obtain ⟨e, he, h⟩ := bind_eq_ok_iff.1 h
  cases h
  refine Relays.before htuples hout ?_
  split at he
  · exact relays_redial hsends c' he
  · cases he
    exact relays_of_eq rfl

/-- What happens at the node makes the client talk about what it caches. -/
theorem relays_node (hsends : env.Sends) (hw : c.Wired) {input : Input} :
    Ensures (c.step env (.node input)) c.Relays := by
  have hnode : ∀ (d : Client) (x : Except PyError Node), c.Relays d →
      Ensures (do return { d with node := ← x }) c.Relays := by
    intro d x hrelays c' h
    obtain ⟨n, -, h⟩ := bind_eq_ok_iff.1 h
    cases h
    exact hrelays
  cases input with
  | reap => exact (relays_maintain hsends hw).bind fun d hd => hnode d _ hd
  | _ => exact hnode c _ (relays_of_eq rfl)

/-- A frame of the hub makes the client say nothing, or announce itself once more. -/
theorem relays_receive (hsends : env.Sends) (hlink : link ∈ c.links) {body : Bytes} :
    Ensures (c.receive env link body) c.Relays := by
  intro c' h
  obtain ⟨m, -, h⟩ := bind_eq_ok_iff.1 h
  split at h
  · split at h
    · obtain ⟨n, -, h⟩ := bind_eq_ok_iff.1 h
      cases h
      exact relays_of_eq rfl
    · cases h
      exact relays_of_eq rfl
  · have hrelays := relays_announce (c := { c with lastRx := c.lastRx.set link env.now }) hsends hlink c' h
    exact hrelays.before rfl ⟨[], (List.append_nil _).symm, by simp⟩
  · cases h
    exact relays_of_eq rfl

theorem spoken_append {sent : List LinkSend} (hout : c'.outbox = c.outbox ++ sent) (link : Nat) :
    c'.spoken link = c.spoken link ++ (sent.filter fun s => s.link = link && s.sent).map LinkSend.body := by
  rw [spoken, spoken, hout, List.filter_append, List.map_append]

/-- A client that starts tells its own tuple. -/
theorem relays_start {cfg : Config} {endpoint : Bytes} (hsends : env.Sends)
    (h : Client.start env cfg endpoint 1 = .ok c) : ∀ s ∈ c.outbox, c.Relayed c s := by
  have hshape := start_shape h
  unfold Client.start at h
  rw [List.range_one, List.foldlM_cons] at h
  obtain ⟨c1, hc1, h⟩ := bind_eq_ok_iff.1 h
  cases h
  obtain ⟨sent, hout, hsent⟩ := relays_announce hsends (List.mem_singleton_self _) c hc1
  unfold Relayed
  rw [hout, hshape.2.1]
  exact hsent

end Client

end Zre
