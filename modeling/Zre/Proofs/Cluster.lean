import Zre.Proofs.Links

/-!
# Proofs: what a cluster agrees on

A client takes from its link what the hub told it, in the order in which the hub told it. So once a client has said
HELLO and nothing is on the way to it, its cache holds every tuple of the hub.
-/

namespace Zre

open Fallible

theorem take_eq_of_start {α : Type*} {l l' : List α} (h : l <+: l') {n : Nat} (hn : n ≤ l.length) :
    l'.take n = l.take n := by
  obtain ⟨rest, rfl⟩ := h
  exact List.take_append_of_le_length hn

namespace Cluster

variable {ι : Type} {routes : Routes ι} {c c' : Cluster ι} {i : ι} {link : Nat}

/-- The hub has taken a HELLO from the link. -/
def Greeted (c : Cluster ι) (i : ι) (link : Nat) : Prop :=
  ∃ body ∈ ((c.client i).spoken link).take (c.heard i link), Zgs.decode body = .ok (some .hello)

/-- What a client was told last about a key, of what it has taken from its link. -/
def lastRead (routes : Routes ι) (c : Cluster ι) (i : ι) (link : Nat) (key : Bytes) : Option Bytes :=
  NoticeBoard.lastTold (((c.hub.posted (routes.id i link)).take (c.read i link)).filterMap Hub.tells)
    (routes.id i link) key

/-- The client holds what its link told it last. -/
def Caught (routes : Routes ι) (c : Cluster ι) (i : ι) (link : Nat) : Prop :=
  ∀ key value, c.lastRead routes i link key = some value →
    ((c.client i).tuples.get key).map Prod.fst = some (.bytes value)

/-- Links that were never opened are not used, the hub has taken no more than was sent, and so has each client. A
HELLO that was taken has greeted the hub, and each client holds what its link told it last. -/
structure Wired (routes : Routes ι) (c : Cluster ι) (greeted : List Bytes) : Prop where
  runs : ∃ accepted returned, Hub.Runs c.hub greeted accepted returned
  posted : ∀ s ∈ c.hub.outbox, s.1 ∈ c.hub.clients
  client : ∀ i, (c.client i).Wired
  known : ∀ i link, routes.id i link ∈ c.hub.clients → link < (c.client i).nextLink
  heard : ∀ i link, c.heard i link ≤ ((c.client i).spoken link).length
  read : ∀ i link, c.read i link ≤ (c.hub.posted (routes.id i link)).length
  greeted : ∀ i link, link ∈ (c.client i).links → c.Greeted i link → routes.id i link ∈ greeted
  caught : ∀ i link, link ∈ (c.client i).links → c.Caught routes i link

theorem Greeted.of_grows {heard : ι → Nat → Nat} {client : ι → Client} (hheard : c.heard i link = heard i link)
    (hle : c.heard i link ≤ ((c.client i).spoken link).length)
    (hspoken : (c.client i).spoken link <+: (client i).spoken link)
    (h : (⟨c.hub, c.host, client, heard, c.read⟩ : Cluster ι).Greeted i link) : c.Greeted i link := by
  obtain ⟨body, hbody, hdec⟩ := h
  refine ⟨body, ?_, hdec⟩
  have htake := take_eq_of_start hspoken hle
  rw [← htake, hheard]
  exact hbody

/-- Nothing has come over a link before it is opened. -/
theorem Wired.fresh {greeted : List Bytes} (hw : c.Wired routes greeted) (hlink : (c.client i).nextLink ≤ link) :
    c.hub.posted (routes.id i link) = [] ∧ ¬ c.Greeted i link := by
  refine ⟨Hub.posted_eq_nil hw.posted fun hmem => absurd (hw.known i link hmem) (by omega), ?_⟩
  rintro ⟨body, hbody, -⟩
  rw [(hw.client i).spoken_eq_nil hlink] at hbody
  simp at hbody

/-- The hub has moved on. -/
theorem Wired.rehub {greeted greeted' : List Bytes} (hw : c.Wired routes greeted) {hub : Hub} {host : Option Node}
    {heard : ι → Nat → Nat} (hruns : ∃ accepted returned, Hub.Runs hub greeted' accepted returned)
    (hout : ∃ frames, hub.outbox = c.hub.outbox ++ frames ∧ ∀ s ∈ frames, s.1 ∈ hub.clients)
    (hclients : ∀ id ∈ c.hub.clients, id ∈ hub.clients)
    (hknown : ∀ i link, routes.id i link ∈ hub.clients → link < (c.client i).nextLink)
    (hheard : ∀ i link, heard i link ≤ ((c.client i).spoken link).length)
    (hgreeted : ∀ i link, link ∈ (c.client i).links →
      (⟨hub, host, c.client, heard, c.read⟩ : Cluster ι).Greeted i link → routes.id i link ∈ greeted') :
    (⟨hub, host, c.client, heard, c.read⟩ : Cluster ι).Wired routes greeted' := by
  obtain ⟨frames, hout, hframes⟩ := hout
  have hgrows := fun i link => Hub.posted_grows hout (routes.id i link)
  constructor
  · exact hruns
  · intro s hs
    rw [show (⟨hub, host, c.client, heard, c.read⟩ : Cluster ι).hub = hub from rfl, hout] at hs
    rcases List.mem_append.1 hs with hs | hs
    · exact hclients _ (hw.posted s hs)
    · exact hframes s hs
  · exact hw.client
  · exact hknown
  · exact hheard
  · exact fun i link => (hw.read i link).trans (hgrows i link).length_le
  · exact hgreeted
  · intro i link hlink key value hlast
    refine hw.caught i link hlink key value ?_
    unfold lastRead at hlast ⊢
    rwa [take_eq_of_start (hgrows i link) (hw.read i link)] at hlast

variable [DecidableEq ι]

/-- A client has moved on by itself. -/
theorem Wired.call {env : GossipEnv} {greeted : List Bytes} (hw : c.Wired routes greeted) {d : Client}
    (hcalls : (c.client i).Calls env d) :
    ({ c with client := Function.update c.client i d } : Cluster ι).Wired routes greeted := by
  obtain ⟨sent, hout, -⟩ := hcalls.outbox
  have hspoken : ∀ j link, (c.client j).spoken link <+: (Function.update c.client i d j).spoken link := by
    intro j link
    by_cases hj : j = i
    · subst hj
      rw [Function.update_self]
      exact Client.spoken_grows hout link
    · rw [Function.update_of_ne hj]
  have hold : ∀ j link, link ∈ (Function.update c.client i d j).links →
      link ∈ (c.client j).links ∨ j = i ∧ link = (c.client i).nextLink := by
    intro j link hlink
    by_cases hj : j = i
    · subst hj
      rw [Function.update_self] at hlink
      rcases hcalls.links with ⟨hlinks, -⟩ | ⟨hlinks, -⟩
      · exact Or.inl (hlinks ▸ hlink)
      · rw [hlinks] at hlink
        exact Or.inr ⟨rfl, List.mem_singleton.1 hlink⟩
    · rw [Function.update_of_ne hj] at hlink
      exact Or.inl hlink
  have hgreeted : ∀ j link, ({ c with client := Function.update c.client i d } : Cluster ι).Greeted j link →
      c.Greeted j link := fun j link => Greeted.of_grows rfl (hw.heard j link) (hspoken j link)
  constructor
  · exact hw.runs
  · exact hw.posted
  · intro j
    show (Function.update c.client i d j).Wired
    by_cases hj : j = i
    · subst hj
      rw [Function.update_self]
      exact (hw.client j).calls hcalls
    · rw [Function.update_of_ne hj]
      exact hw.client j
  · intro j link hid
    have hlt := hw.known j link hid
    show link < (Function.update c.client i d j).nextLink
    by_cases hj : j = i
    · subst hj
      rw [Function.update_self]
      rcases hcalls.links with ⟨-, hnext⟩ | ⟨-, hnext, -⟩ <;> omega
    · rw [Function.update_of_ne hj]
      exact hlt
  · exact fun j link => (hw.heard j link).trans (hspoken j link).length_le
  · exact hw.read
  · intro j link hlink hg
    rcases hold j link hlink with hlink | ⟨rfl, rfl⟩
    · exact hw.greeted j link hlink (hgreeted j link hg)
    · exact absurd (hgreeted j _ hg) (hw.fresh le_rfl).2
  · intro j link hlink key value hlast
    rcases hold j link hlink with hlink | ⟨rfl, rfl⟩
    · have hcaught := hw.caught j link hlink key value hlast
      show ((Function.update c.client i d j).tuples.get key).map Prod.fst = _
      by_cases hj : j = i
      · subst hj
        rw [Function.update_self, hcalls.tuples]
        exact hcaught
      · rw [Function.update_of_ne hj]
        exact hcaught
    · unfold lastRead at hlast
      rw [show ({ c with client := Function.update c.client j d } : Cluster ι).hub = c.hub from rfl,
        (hw.fresh le_rfl).1] at hlast
      simp [NoticeBoard.lastTold, NoticeBoard.toldOf] at hlast

theorem bump_apply (n : ι → Nat → Nat) (i j : ι) (link l : Nat) :
    bump n i link j l = if j = i ∧ l = link then n i link + 1 else n j l := by
  unfold bump
  by_cases hj : j = i
  · subst hj
    rw [Function.update_self, Function.update_apply]
    simp
  · rw [Function.update_of_ne hj, if_neg fun h => hj h.1]

theorem take_succ_of_drop {α : Type*} {l rest : List α} {n : Nat} {a : α} (h : l.drop n = a :: rest) :
    n < l.length ∧ l.take (n + 1) = l.take n ++ [a] := by
  refine ⟨?_, by rw [List.take_add, h]; rfl⟩
  by_contra hn
  rw [List.drop_eq_nil_of_le (by omega)] at h
  cases h

/-- One more frame was taken from a link. -/
theorem bump_le {α : Type*} {n : ι → Nat → Nat} {l : ι → Nat → List α} (hle : ∀ i link, n i link ≤ (l i link).length)
    (hlt : n i link < (l i link).length) (j : ι) (m : Nat) : bump n i link j m ≤ (l j m).length := by
  rw [bump_apply]
  split
  · rename_i hjm
    obtain ⟨rfl, rfl⟩ := hjm
    exact hlt
  · exact hle j m

/-- A frame of an open link is taken. -/
theorem Wired.take {env : GossipEnv} {greeted : List Bytes} (hw : c.Wired routes greeted)
    (hlink : link ∈ (c.client i).links) {s : Bytes × Bytes} {rest : List (Bytes × Bytes)}
    (hdown : c.down routes i link = s :: rest) {d : Client} (hd : (c.client i).receive env link s.2 = .ok d) :
    (⟨c.hub, c.host, Function.update c.client i d, c.heard, bump c.read i link⟩ : Cluster ι).Wired routes greeted := by
  obtain ⟨only, hsingle, honly⟩ := (hw.client i).single
  obtain rfl : link = only := by simpa [hsingle] using hlink
  obtain ⟨hd', hlinks, hnext, hout⟩ := (hw.client i).receive honly hd
  obtain ⟨hlt, htake⟩ := take_succ_of_drop hdown
  have hid : s.1 = routes.id i link := (Hub.mem_posted.1 (List.mem_of_mem_drop (hdown ▸ List.mem_cons_self))).2
  have hspoken : ∀ j m, (c.client j).spoken m <+: (Function.update c.client i d j).spoken m := by
    intro j m
    by_cases hj : j = i
    · subst hj
      rw [Function.update_self]
      obtain ⟨sent, hsent⟩ := hout
      exact Client.spoken_grows hsent.symm m
    · rw [Function.update_of_ne hj]
  have hsame : ∀ j, (Function.update c.client i d j).links = (c.client j).links ∧
      (Function.update c.client i d j).nextLink = (c.client j).nextLink := by
    intro j
    by_cases hj : j = i
    · subst hj
      rw [Function.update_self]
      exact ⟨hlinks, hnext⟩
    · rw [Function.update_of_ne hj]
      exact ⟨rfl, rfl⟩
  constructor
  · exact hw.runs
  · exact hw.posted
  · intro j
    show (Function.update c.client i d j).Wired
    by_cases hj : j = i
    · subst hj
      rw [Function.update_self]
      exact hd'
    · rw [Function.update_of_ne hj]
      exact hw.client j
  · intro j m hm
    show m < (Function.update c.client i d j).nextLink
    rw [(hsame j).2]
    exact hw.known j m hm
  · exact fun j m => (hw.heard j m).trans (hspoken j m).length_le
  · exact bump_le hw.read hlt
  · intro j m hm hg
    replace hm : m ∈ (Function.update c.client i d j).links := hm
    rw [(hsame j).1] at hm
    exact hw.greeted j m hm (Greeted.of_grows rfl (hw.heard j m) (hspoken j m) hg)
  · intro j m hm key value hlast
    replace hm : m ∈ (Function.update c.client i d j).links := hm
    rw [(hsame j).1] at hm
    replace hlast : NoticeBoard.lastTold (((c.hub.posted (routes.id j m)).take (bump c.read i link j m)).filterMap
      Hub.tells) (routes.id j m) key = some value := hlast
    rw [bump_apply] at hlast
    show ((Function.update c.client i d j).tuples.get key).map Prod.fst = _
    by_cases hj : j = i
    swap
    · rw [Function.update_of_ne hj]
      rw [if_neg fun h => hj h.1] at hlast
      exact hw.caught j m hm key value hlast
    subst hj
    obtain rfl : m = link := by simpa [hsingle] using hm
    rw [if_pos ⟨rfl, rfl⟩, htake, List.filterMap_append] at hlast
    rw [Function.update_self]
    cases hdec : Hub.tells s with
    | none =>
      rw [List.filterMap_cons_none hdec, List.filterMap_nil, List.append_nil] at hlast
      have hno : ∀ k v ttl, Zgs.decode s.2 ≠ .ok (some (.publish k v ttl)) := by
        intro k v ttl hpub
        simp [Hub.tells, hpub] at hdec
      rcases Client.receive_shape honly hd with ⟨k, v, ttl, -, hpub, -⟩ | ⟨-, hcalls, -⟩
      · exact absurd hpub (hno k v ttl)
      · rw [hcalls.tuples]
        exact hw.caught j m hm key value hlast
    | some t =>
      have ht : ∃ k v ttl, Zgs.decode s.2 = .ok (some (.publish k v ttl)) ∧ t = (routes.id j m, k, v) := by
        unfold Hub.tells at hdec
        split at hdec <;> cases hdec
        rename_i k v ttl hpub
        exact ⟨k, v, ttl, hpub, by rw [hid]⟩
      obtain ⟨k, v, ttl, hpub, rfl⟩ := ht
      rw [List.filterMap_cons_some hdec, List.filterMap_nil] at hlast
      rw [Client.receive_tuples honly hpub hd]
      by_cases hk : k = key
      · subst hk
        rw [NoticeBoard.lastTold_append_of_told (v := v) (List.mem_singleton_self _)
          (fun w hw => by simpa using hw)] at hlast
        rw [if_pos rfl, Option.some.inj hlast]
      · rw [NoticeBoard.lastTold_append_of_silent fun w hw => hk (by simpa using (Prod.mk.inj (Prod.mk.inj
          (List.mem_singleton.1 hw)).2).1.symm)] at hlast
        rw [if_neg hk]
        exact hw.caught j m hm key value hlast

/-- The tuples that come from elsewhere can be encoded, and nobody else has the routing id of a link. -/
def Welcome (routes : Routes ι) : Event ι → Prop
  | .stranger frames => Hub.FitsWire frames ∧ ∀ id body, frames = [id, body] → ∀ i link, id ≠ routes.id i link
  | .publish key value ttl => Zgs.Fits key value ∧ ttl < 4294967296
  | _ => True

omit [DecidableEq ι] in
/-- The hub handles a message. -/
theorem Wired.message {env : Env} {greeted : List Bytes} (hw : c.Wired routes greeted) {frames : List Bytes}
    (hfits : Hub.FitsWire frames) {hub : Hub} (hm : c.hub.handleMessage env frames = .ok hub)
    {heard : ι → Nat → Nat} (hheard : ∀ i link, heard i link ≤ ((c.client i).spoken link).length)
    (hsender : ∀ i link body, frames = [routes.id i link, body] → link < (c.client i).nextLink)
    (hgreeted : ∀ i link, link ∈ (c.client i).links →
      (⟨hub, c.host, c.client, heard, c.read⟩ : Cluster ι).Greeted i link →
        c.Greeted i link ∨ routes.id i link ∈ Hub.greeter frames) :
    (⟨hub, c.host, c.client, heard, c.read⟩ : Cluster ι).Wired routes (greeted ++ Hub.greeter frames) := by
  obtain ⟨accepted, returned, hruns⟩ := hw.runs
  have hruns' := hruns.message env frames hfits hm
  have hg : ∀ i link, link ∈ (c.client i).links →
      (⟨hub, c.host, c.client, heard, c.read⟩ : Cluster ι).Greeted i link →
        routes.id i link ∈ greeted ++ Hub.greeter frames := by
    intro i link hlink hg
    refine List.mem_append.2 ((hgreeted i link hlink hg).imp (hw.greeted i link hlink) fun h => h)
  rcases Hub.handleMessage_posts hruns.sound hub hm with rfl | ⟨id, body, rfl, hposts⟩
  · refine hw.rehub ⟨_, _, hruns'⟩ ⟨[], by simp, by simp⟩ (fun _ h => h) hw.known hheard hg
  · obtain ⟨new, hout, hnew⟩ := hposts.outbox
    refine hw.rehub ⟨_, _, hruns'⟩ ⟨new, hout, fun s hs => ?_⟩ (fun x hx => ?_) (fun i link hid => ?_) hheard hg
    · rw [hposts.clients]
      exact (hnew s hs).1
    · rw [hposts.clients]
      exact (Hub.mem_clients_addClient c.hub id x).2 (Or.inl hx)
    · rw [hposts.clients] at hid
      rcases (Hub.mem_clients_addClient c.hub id _).1 hid with hid | rfl
      · exact hw.known i link hid
      · exact hsender i link body rfl

/-- The hub takes the next frame of a link. -/
theorem Wired.hear {env : Env} {greeted : List Bytes} (hw : c.Wired routes greeted) {body : Bytes}
    {rest : List Bytes} (hup : c.up i link = body :: rest) {hub : Hub}
    (hm : c.hub.handleMessage env [routes.id i link, body] = .ok hub) :
    ∃ greeted', (⟨hub, c.host, c.client, bump c.heard i link, c.read⟩ : Cluster ι).Wired routes greeted' := by
  obtain ⟨hlt, htake⟩ := take_succ_of_drop hup
  have hmem : body ∈ (c.client i).spoken link := List.mem_of_mem_drop (hup ▸ List.mem_cons_self)
  obtain ⟨s, hs, rfl, -, rfl⟩ := Client.mem_spoken.1 hmem
  obtain ⟨hlink, m, hm', -⟩ := (hw.client i).sent s hs
  refine ⟨_, hw.message ?_ hm (bump_le hw.heard hlt) ?_ ?_⟩
  · rintro _ _ key value ttl ⟨⟩ hdec
    rw [Zgs.decode_encode hm'] at hdec
    cases hdec
    exact Zgs.fits_of_encode hm'
  · rintro j l _ heq
    obtain ⟨rfl, rfl⟩ := routes.inj _ _ _ _ (List.cons.inj heq).1
    exact hlink
  · rintro j l hl ⟨hello, hhello, hdec⟩
    rw [show (⟨hub, c.host, c.client, bump c.heard i s.link, c.read⟩ : Cluster ι).heard j l = bump c.heard i s.link j l
      from rfl, bump_apply] at hhello
    split at hhello
    · rename_i hjl
      obtain ⟨rfl, rfl⟩ := hjl
      rw [show (⟨hub, c.host, c.client, bump c.heard j s.link, c.read⟩ : Cluster ι).client j = c.client j from rfl,
        htake] at hhello
      rcases List.mem_append.1 hhello with hold | hnew
      · exact Or.inl ⟨hello, hold, hdec⟩
      · obtain rfl := List.mem_singleton.1 hnew
        right
        rw [Hub.greeter_eq _ hdec, if_pos rfl]
        exact List.mem_singleton_self _
    · exact Or.inl ⟨hello, hhello, hdec⟩

/-- Every event keeps the links in order. -/
theorem Wired.step {env : GossipEnv} {event : Event ι} {greeted : List Bytes} (hw : c.Wired routes greeted)
    (hwelcome : Welcome routes event) (h : c.step routes env event = .ok c') :
    ∃ greeted', c'.Wired routes greeted' := by
  obtain ⟨accepted, returned, hruns⟩ := hw.runs
  have hquiet : ∀ {hub : Hub} {host : Option Node} {accepted' returned' : List (Bytes × Bytes)},
      Hub.Runs hub greeted accepted' returned' → hub.outbox = c.hub.outbox → hub.clients = c.hub.clients →
        (⟨hub, host, c.client, c.heard, c.read⟩ : Cluster ι).Wired routes greeted := by
    intro hub host accepted' returned' hruns' hout hclients
    exact hw.rehub ⟨_, _, hruns'⟩ ⟨[], by rw [hout, List.append_nil], by simp⟩ (fun id hid => hclients ▸ hid)
      (fun j l hid => hw.known j l (hclients ▸ hid)) hw.heard hw.greeted
  cases event with
  | node i input =>
    obtain ⟨d, hd, h⟩ := bind_eq_ok_iff.1 h
    cases h
    exact ⟨greeted, hw.call (Client.calls_node (hw.client i) d hd)⟩
  | host input =>
    simp only [Cluster.step] at h
    split at h
    · cases h
      exact ⟨greeted, hw⟩
    · obtain ⟨n, -, h⟩ := bind_eq_ok_iff.1 h
      cases h
      exact ⟨greeted, hquiet hruns rfl rfl⟩
  | hear i link =>
    simp only [Cluster.step] at h
    cases hup : c.up i link with
    | nil =>
      simp only [hup] at h
      cases h
      exact ⟨greeted, hw⟩
    | cons body rest =>
      simp only [hup] at h
      obtain ⟨hub, hm, h⟩ := bind_eq_ok_iff.1 h
      cases h
      exact hw.hear hup hm
  | take i link =>
    simp only [Cluster.step] at h
    cases hdown : c.down routes i link with
    | nil =>
      simp only [hdown] at h
      cases h
      exact ⟨greeted, hw⟩
    | cons s rest =>
      simp only [hdown] at h
      split at h
      · rename_i hlink
        obtain ⟨d, hd, h⟩ := bind_eq_ok_iff.1 h
        cases h
        exact ⟨greeted, hw.take hlink hdown hd⟩
      · cases h
        exact ⟨greeted, hw⟩
  | lose i link =>
    simp only [Cluster.step] at h
    split at h
    · cases h
      exact ⟨greeted, hw⟩
    · rename_i hclosed
      cases h
      obtain ⟨hlink, hup⟩ := not_or.1 hclosed
      have hlt : c.heard i link < ((c.client i).spoken link).length := by
        by_contra hge
        exact hup (List.drop_eq_nil_of_le (by omega))
      refine ⟨greeted, hw.rehub hw.runs ⟨[], by simp, fun s hs => by simp at hs⟩ (fun _ h => h) hw.known
        (bump_le hw.heard hlt) fun j l hl hg => hw.greeted j l hl ?_⟩
      refine Greeted.of_grows ?_ (hw.heard j l) List.prefix_rfl hg
      rw [bump_apply, if_neg]
      rintro ⟨rfl, rfl⟩
      exact hlink hl
  | stranger frames =>
    obtain ⟨hub, hm, h⟩ := bind_eq_ok_iff.1 h
    cases h
    refine ⟨_, hw.message hwelcome.1 hm hw.heard ?_ fun j l hl hg => Or.inl ?_⟩
    · rintro j l body rfl
      exact absurd rfl (hwelcome.2 _ body rfl j l)
    · exact Greeted.of_grows rfl (hw.heard j l) List.prefix_rfl hg
  | reap =>
    cases h
    exact ⟨greeted, hquiet (hruns.reap env.toEnv) rfl rfl⟩
  | collect =>
    simp only [Cluster.step] at h
    simp only [Hub.deliveries] at h
    split at h
    · cases h
      exact ⟨greeted, hquiet hruns.deliver rfl rfl⟩
    · obtain ⟨n, -, h⟩ := bind_eq_ok_iff.1 h
      cases h
      exact ⟨greeted, hquiet hruns.deliver rfl rfl⟩
  | publish key value ttl =>
    obtain ⟨hub, hm, h⟩ := bind_eq_ok_iff.1 h
    cases h
    have hposts : Hub.Posts (fun _ _ _ => True) c.hub hub := Hub.posts_accept trivial hub hm
    obtain ⟨new, hout, hnew⟩ := hposts.outbox
    refine ⟨greeted, hw.rehub ⟨_, _, hruns.publish env.toEnv key value ttl hwelcome.1 hwelcome.2 hm⟩
      ⟨new, hout, fun s hs => ?_⟩ (fun id hid => ?_) (fun j l hid => hw.known j l ?_) hw.heard hw.greeted⟩
    · rw [hposts.clients]
      exact (hnew s hs).1
    · rw [hposts.clients]
      exact hid
    · rwa [hposts.clients] at hid
  | unpublish key =>
    cases h
    exact ⟨greeted, hquiet (hruns.unpublish key) rfl rfl⟩

/-- The hub of a new cluster has told nobody anything. -/
theorem openHub_runs {env : Env} {o : Option (Config × Bytes)} {hub : Hub} {host : Option Node}
    (hlen : ∀ p, o = some p → p.2.length ≤ Zgs.maxLongstrBytes) (h : openHub env o = .ok (hub, host)) :
    (∃ accepted, Hub.Runs hub [] accepted []) ∧ hub.outbox = [] ∧ hub.clients = [] := by
  cases o with
  | none =>
    cases h
    exact ⟨⟨[], .init⟩, rfl, rfl⟩
  | some p =>
    obtain ⟨cfg, endpoint⟩ := p
    obtain ⟨hub, hp, h⟩ := bind_eq_ok_iff.1 h
    cases h
    have hposts : Hub.Posts (fun _ _ _ => True) Hub.init hub := Hub.posts_accept trivial hub hp
    obtain ⟨new, hout, hnew⟩ := hposts.outbox
    refine ⟨⟨_, Hub.Runs.init.publish env _ _ 0 (Client.own_fits cfg (hlen _ rfl)) (by decide) hp⟩, ?_, hposts.clients⟩
    cases new with
    | nil => exact hout
    | cons s new => exact absurd (hnew s List.mem_cons_self).1 List.not_mem_nil

omit [DecidableEq ι] in
theorem Wired.start {members : Members ι} {hub : Hub} {host : Option Node} {client : ι → Client} {env : GossipEnv}
    {envs : ι → GossipEnv} (hhost : ∀ o, members.host = some o → o.2.length ≤ Zgs.maxLongstrBytes)
    (hhub : openHub env.toEnv members.host = .ok (hub, host))
    (h : ∀ i, Client.start (envs i) (members.cfg i) (members.endpoint i) 1 = .ok (client i)) :
    (⟨hub, host, client, fun _ _ => 0, fun _ _ => 0⟩ : Cluster ι).Wired routes [] := by
  obtain ⟨⟨accepted, hruns⟩, hout, hclients⟩ := openHub_runs hhost hhub
  constructor
  · exact ⟨accepted, [], hruns⟩
  · intro s hs
    rw [show (⟨hub, host, client, fun _ _ => 0, fun _ _ => 0⟩ : Cluster ι).hub = hub from rfl, hout] at hs
    cases hs
  · exact fun i => (Client.start_wired (h i)).1
  · intro i link hid
    rw [show (⟨hub, host, client, fun _ _ => 0, fun _ _ => 0⟩ : Cluster ι).hub = hub from rfl, hclients] at hid
    cases hid
  · exact fun i link => Nat.zero_le _
  · exact fun i link => Nat.zero_le _
  · rintro i link - ⟨body, hbody, -⟩
    simp at hbody
  · intro i link _ key value hlast
    simp [lastRead, NoticeBoard.lastTold, NoticeBoard.toldOf] at hlast

/-- In every run the links are in order. -/
theorem RunBy.wired {S : GossipEnv → Prop} {P : Cluster ι → GossipEnv → Event ι → Prop} {members : Members ι}
    (hwelcome : ∀ c env event, P c env event → Welcome routes event) (h : RunBy S P routes members c) :
    ∃ greeted, c.Wired routes greeted := by
  induction h with
  | start env envs hhost hhub hlen hs h => exact ⟨[], Wired.start hhost hhub h⟩
  | step env event _ hp h ih =>
    obtain ⟨greeted, hw⟩ := ih
    exact hw.step (hwelcome _ env event hp) h

omit [DecidableEq ι] in
/-- Once the hub has taken the HELLO of a client and nothing is on the way to it, its cache holds what the hub
holds. -/
theorem Wired.agrees {greeted : List Bytes} (hw : c.Wired routes greeted) (hopen : link ∈ (c.client i).links)
    (hgreeted : c.Greeted i link) (hquiet : c.down routes i link = []) {key value : Bytes} {expiry : Int}
    (hk : c.hub.tuples.get key = some (value, expiry)) :
    ∃ ttl, (c.client i).tuples.get key = some (.bytes value, ttl) := by
  obtain ⟨accepted, returned, hruns⟩ := hw.runs
  have hstart : (Hub.init.board []).Informed := ⟨by simp [Hub.board], by simp [Hub.board]⟩
  have htold : c.hub.lastPublished (routes.id i link) key = some value := by
    refine (hruns.board.informed hstart).current _ (hw.greeted i link hopen hgreeted) key value ?_
    show (c.hub.tuples.get key).map Prod.fst = _
    rw [hk]
    rfl
  rw [Hub.lastPublished_eq] at htold
  have hall : (c.hub.posted (routes.id i link)).take (c.read i link) = c.hub.posted (routes.id i link) := by
    have hsplit := List.take_append_drop (c.read i link) (c.hub.posted (routes.id i link))
    rwa [show (c.hub.posted (routes.id i link)).drop (c.read i link) = [] from hquiet, List.append_nil] at hsplit
  have hcaught := hw.caught i link hopen key value (by rw [lastRead, hall]; exact htold)
  obtain ⟨⟨v, ttl⟩, hget, hv⟩ := Option.map_eq_some_iff.1 hcaught
  cases hv
  exact ⟨ttl, hget⟩

/-- In every run, once the hub has taken the HELLO of a client and nothing is on the way to it, its cache holds every
tuple of the hub. -/
theorem RunBy.links_agree {members : Members ι} (h : RunBy (fun _ => True) (fun _ _ => Welcome routes) routes members c)
    (hopen : link ∈ (c.client i).links) (hgreeted : c.Greeted i link) (hquiet : c.down routes i link = [])
    {key value : Bytes} {expiry : Int} (hk : c.hub.tuples.get key = some (value, expiry)) :
    ∃ ttl, (c.client i).tuples.get key = some (.bytes value, ttl) := by
  obtain ⟨greeted, hw⟩ := h.wired fun _ _ _ hp => hp
  exact hw.agrees hopen hgreeted hquiet hk

/-! ## A sample -/

theorem sampleHost_length : sampleUuid.length = 16 := rfl

theorem sampleThird_length : (List.replicate 15 (0 : UInt8) ++ [3]).length = 16 := rfl

/-- Two clients and a host. -/
def sampleMembers : Members Bool where
  cfg i := if i then Config.plain _ sampleThird_length Node.sampleA.cfg.name 4003 else Node.sampleA.cfg
  endpoint i := if i then encodeStr "tcp://10.0.0.3:4003".toList else Client.sampleEndpoint
  host := some (Config.plain sampleUuid sampleHost_length Node.sampleA.cfg.name 4002, Client.sampleValue)

def sampleRoutes : Routes Bool where
  id i link := (if i then 1 else 0) :: List.replicate link 0
  inj i l j m h := by
    obtain ⟨hij, hlm⟩ := List.cons.inj h
    refine ⟨?_, List.replicate_left_injective 0 hlm⟩
    cases i <;> cases j <;> simp_all

/-- The cluster after an event; a handler that raises is not followed. -/
def did (c : Cluster Bool) (event : Event Bool) : Cluster Bool :=
  (c.step sampleRoutes (GossipEnv.calm 0) event).toOption.getD c

/-- Everybody has been started. -/
def sampleStarted : Cluster Bool where
  hub := ((openHub (Env.calm 0) sampleMembers.host).toOption.getD (Hub.init, none)).1
  host := ((openHub (Env.calm 0) sampleMembers.host).toOption.getD (Hub.init, none)).2
  client i := (Client.start (GossipEnv.calm 0) (sampleMembers.cfg i) (sampleMembers.endpoint i) 1).toOption.getD
    Client.sample
  heard _ _ := 0
  read _ _ := 0

/-- The announcements arrive, one after the other, and so does what the hub tells. -/
def sampleEvents : List (Event Bool) :=
  [.hear false 0, .hear false 0, .hear true 0, .hear true 0, .take false 0, .take false 0, .take false 0,
    .take true 0, .take true 0, .take true 0, .collect]

def sampleAfter (k : ℕ) : Cluster Bool := (sampleEvents.take k).foldl did sampleStarted

/-- The mail moves. -/
def Mail (event : Event Bool) : Prop := (∃ i link, event = .hear i link ∨ event = .take i link) ∨ event = .collect

theorem Mail.welcome {event : Event Bool} (he : Mail event) : Welcome sampleRoutes event := by
  rcases he with ⟨i, link, rfl | rfl⟩ | rfl <;> trivial

theorem sampleEvents_mail : ∀ event ∈ sampleEvents, Mail event := by
  intro event he
  simp only [sampleEvents, List.mem_cons, List.not_mem_nil, or_false] at he
  rcases he with rfl | rfl | rfl | rfl | rfl | rfl | rfl | rfl | rfl | rfl | rfl <;> simp [Mail]

/-- The sample cluster runs whatever is asked of its events, as long as it may be asked of the mail. -/
theorem sample_runs {S : GossipEnv → Prop} {P : Cluster Bool → GossipEnv → Event Bool → Prop}
    (hS : S (GossipEnv.calm 0)) (hP : ∀ c event, Mail event → P c (GossipEnv.calm 0) event) {k : ℕ} (hk : k ≤ 11) :
    RunBy S P sampleRoutes sampleMembers (sampleAfter k) := by
  have hhub : openHub (Env.calm 0) sampleMembers.host =
      .ok ((openHub (Env.calm 0) sampleMembers.host).toOption.getD (Hub.init, none)) :=
    eq_ok_getD (by decide +kernel)
  have hstarted : RunBy S P sampleRoutes sampleMembers sampleStarted := by
    refine .start (GossipEnv.calm 0) (fun _ => GossipEnv.calm 0) ?_ hhub (fun i => ?_) (fun _ => hS)
      fun i => eq_ok_getD ?_
    · rintro _ ⟨⟩
      decide +kernel
    · cases i <;> decide +kernel
    · cases i <;> decide +kernel
  have hok : ∀ k : Fin 11, ((sampleAfter k).step sampleRoutes (GossipEnv.calm 0) sampleEvents[k]).toOption.isSome =
      true := by decide +kernel
  induction k with
  | zero => exact hstarted
  | succ k ih =>
    have hlt : k < sampleEvents.length := hk
    have hnext : sampleAfter (k + 1) = did (sampleAfter k) sampleEvents[k] := by
      unfold sampleAfter
      rw [List.take_add_one, List.getElem?_eq_getElem hlt, List.foldl_append]
      rfl
    rw [hnext]
    exact (ih (by omega)).step (GossipEnv.calm 0) _ (hP _ _ (sampleEvents_mail _ (List.getElem_mem hlt)))
      (eq_ok_getD (hok ⟨k, hlt⟩))

/-- The tuple of the host has come to a client. -/
theorem sample_links_agree : ∃ ttl, ((sampleAfter 11).client true).tuples.get Client.sampleKey =
    some (.bytes Client.sampleValue, ttl) := by
  have hrun : RunBy (fun _ => True) (fun _ _ => Welcome sampleRoutes) sampleRoutes sampleMembers (sampleAfter 11) :=
    sample_runs trivial (fun _ _ => Mail.welcome) le_rfl
  have hlink : 0 ∈ ((sampleAfter 11).client true).links := by decide +kernel
  have hquiet : (sampleAfter 11).down sampleRoutes true 0 = [] := by decide +kernel
  have hgreeted : (sampleAfter 11).Greeted true 0 :=
    ⟨Zgs.signature ++ [1, Zgs.version], by decide +kernel, rfl⟩
  have hk : (sampleAfter 11).hub.tuples.get Client.sampleKey = some (Client.sampleValue, 0) := by decide +kernel
  exact hrun.links_agree hlink hgreeted hquiet hk

end Cluster

end Zre
