import Zre.Proofs.Rumours

/-!
# Proofs: what a cluster discovers

Every client announces itself on each link that it opens, and every cache gets what the hub holds. A node dials what
it caches, so once nothing is on the way everybody knows everybody.
-/

namespace Zre

open Fallible

namespace Cluster

variable {ι : Type} {members : Members ι} {routes : Routes ι} {c c' : Cluster ι} {i : ι} {link : Nat} {h : Hub}

/-! ## Every member is announced -/

/-- The body is the own tuple of the client. -/
def Members.Own (members : Members ι) (i : ι) (body : Bytes) : Prop :=
  Zgs.decode body = .ok (some (.publish (members.key i) (members.endpoint i) 0))

/-- Every client has announced itself on its link, and the hub keeps what has come there. -/
structure Announced (members : Members ι) (c : Cluster ι) : Prop where
  own : ∀ i, ∃ value ttl, (c.client i).tuples.get (members.key i) = some (value, ttl)
  hello : ∀ i link, link ∈ (c.client i).links →
    ∃ body ∈ (c.client i).spoken link, Zgs.decode body = .ok (some .hello)
  spoken : ∀ i link, link ∈ (c.client i).links → ∃ body ∈ (c.client i).spoken link, members.Own i body
  arrived : ∀ i link, link ∈ (c.client i).links →
    (∃ body ∈ ((c.client i).spoken link).take (c.heard i link), members.Own i body) →
      c.hub.tuples.get (members.key i) = some (members.endpoint i, 0)
  hosted : ∀ o, members.host = some o → c.hub.tuples.get (encodeStr o.1.peerIdHex) = some (o.2, 0)

/-- An announcement names the client. -/
theorem announced_own {d : Client} {value : TupleValue} {ttl : Nat}
    (hown : d.tuples.get (members.key i) = some (value, ttl)) (hhonest : members.Honest (members.key i) value.raw ttl)
    (ha : d.Announced link) : (∃ body ∈ d.spoken link, Zgs.decode body = .ok (some .hello)) ∧
      ∃ body ∈ d.spoken link, members.Own i body := by
  obtain ⟨hvalue, rfl⟩ := hhonest _ (.client i)
  constructor
  · obtain ⟨body, hbody, hm⟩ := ha .hello List.mem_cons_self
    exact ⟨body, hbody, Zgs.decode_encode hm⟩
  · obtain ⟨body, hbody, hm⟩ := ha (.publish (members.key i) value.raw 0)
      (List.mem_cons_of_mem _ (List.mem_map.2 ⟨(members.key i, value, 0), (Dict.get_eq_some_iff _).1 hown, rfl⟩))
    refine ⟨body, hbody, ?_⟩
    rw [Members.Own, Zgs.decode_encode hm, hvalue]

/-- The hub has moved on, and taken no new frame of a client. -/
theorem Announced.rehub (ha : Announced members c) (hminds : Minds members c.hub h) (host : Option Node)
    (heard : ι → Nat → Nat) (hheard : ∀ i link, link ∈ (c.client i).links → heard i link = c.heard i link) :
    Announced members (⟨h, host, c.client, heard, c.read⟩ : Cluster ι) := by
  refine ⟨ha.own, ha.hello, ha.spoken, fun i link hlink hbody => ?_, fun o ho => ?_⟩
  · refine hminds.kept _ _ (.client i) (ha.arrived i link hlink ?_)
    rw [← hheard i link hlink]
    exact hbody
  · exact hminds.kept _ _ (.host o ho) (ha.hosted o ho)

/-! ## What is cached is dialled -/

/-- The peer of a key is in the table. -/
def Has (n : Node) (key : Bytes) : Prop := n.peers.contains (n.cfg.rt.lower (bdec key)) = true

theorem Has.keeps {n n' : Node} {key : Bytes} (hcfg : n'.cfg = n.cfg) (hk : n.Keeps n') (h : Has n key) :
    Has n' key := by
  unfold Has
  rw [hcfg]
  exact hk _ h

/-- A node that runs under its configuration. -/
structure Runs (cfg : Config) (n : Node) : Prop where
  reachable : n.Reachable
  cfg : n.cfg = cfg

theorem Runs.step {cfg : Config} {n n' : Node} (h : Runs cfg n) {env : Env} {input : Input}
    (hs : n.step env input = .ok n') : Runs cfg n' :=
  ⟨.step env input h.reachable hs, (Node.moves_cfg (Node.moves_step env h.reachable.tables input n' hs)).trans h.cfg⟩

/-- A node that can take the tuples of the members other than its own. -/
structure Taker (members : Members ι) (own : Bytes) (cfg : Config) : Prop where
  own : own = encodeStr cfg.peerIdHex
  plain : cfg.curveSecret = none
  endpoint : ∀ key value, members.Announces key value → ∃ addr port,
    splitEndpoint cfg.rt (partition '|' (bdec value)).1 = .ok (addr, port)

/-- The tuple of another member is dialled. -/
theorem Taker.dials {own : Bytes} {cfg : Config} (ht : Taker members own cfg) {n : Node} (hn : Runs cfg n)
    {env : Env} (hconnect : ∀ m, env.connect m = true) {key value : Bytes} (hv : members.Announces key value)
    (hne : key ≠ own) : Ensures (n.gossipRequire env (bdec key) (bdec value)) fun n' => Has n' key := by
  intro n' hn'
  obtain ⟨addr, port, hs⟩ := ht.endpoint key value hv
  have hother : n.cfg.rt.lower (bdec key) ≠ n.cfg.peerIdHex := by
    obtain ⟨b, rfl⟩ : ∃ b, key = encodeStr (hex b) := by
      cases hv with
      | client i => exact ⟨_, rfl⟩
      | host o _ => exact ⟨_, rfl⟩
    rw [lower_ownKey]
    intro heq
    rw [ht.own, ← hn.cfg, ← heq] at hne
    exact hne rfl
  have hfiles := Node.gossipRequire_files hn.reachable.running hother (hn.cfg ▸ hs) (hn.cfg ▸ ht.plain)
    (hconnect n.sockets) n' hn'
  unfold Has
  rw [Node.moves_cfg (Node.moves_gossipRequire env n _ _ n' hn')]
  exact hfiles

/-- Every node runs, a client has dialled what it caches, and the host what it has taken. -/
structure Met (members : Members ι) (c : Cluster ι) : Prop where
  runs : ∀ i, Runs (members.cfg i) (c.client i).node
  dialled : ∀ i key value ttl, members.Announces key value → key ≠ members.key i →
    (c.client i).tuples.get key = some (.bytes value, ttl) → Has (c.client i).node key
  host : ∀ o, members.host = some o → ∃ n, c.host = some n ∧ Runs o.1 n ∧ ∀ key value, members.Announces key value →
    key ≠ encodeStr o.1.peerIdHex → c.hub.tuples.get key = some (value, 0) →
      (key, value) ∈ c.hub.pending ∨ Has n key

/-- The hub has moved on by itself. -/
theorem Met.rehub (hm : Met members c) (hminds : Minds members c.hub h) (heard : ι → Nat → Nat) :
    Met members (⟨h, c.host, c.client, heard, c.read⟩ : Cluster ι) := by
  refine ⟨hm.runs, hm.dialled, fun o ho => ?_⟩
  obtain ⟨n, hn, hruns, hknown⟩ := hm.host o ho
  refine ⟨n, hn, hruns, fun key value hv hne hk => ?_⟩
  rcases hminds.woke key value hv hk with hold | hnew
  · exact (hknown key value hv hne hold).imp (hminds.pending _) fun h => h
  · exact Or.inl hnew

/-- The host takes what waits for it. -/
theorem require_has {own : Bytes} {cfg : Config} (ht : Taker members own cfg) {env : Env}
    (hconnect : ∀ m, env.connect m = true) {ds : List (Bytes × Bytes)} {n : Node} (hn : Runs cfg n) :
    Ensures (require env n ds) fun n' => Runs cfg n' ∧ n.Keeps n' ∧
      ∀ key value, members.Announces key value → key ≠ own → (key, value) ∈ ds → Has n' key := by
  induction ds generalizing n with
  | nil => exact Ensures.ok ⟨hn, fun _ h => h, fun _ _ _ _ h => absurd h List.not_mem_nil⟩
  | cons d ds ih =>
    intro n' h
    unfold require at h
    rw [List.foldlM_cons] at h
    obtain ⟨n1, hn1, h⟩ := bind_eq_ok_iff.1 h
    have hrun1 : Runs cfg n1 := 
      hn.step (show n.step env (.gossip (bdec d.1) (bdec d.2)) = .ok n1 from hn1)
    have hkeeps1 := Node.keeps_gossipRequire _ _ n1 hn1
    obtain ⟨hrun, hkeeps, hall⟩ := ih hrun1 n' h
    refine ⟨hrun, hkeeps1.trans hkeeps, fun key value hv hne hmem => ?_⟩
    rcases List.mem_cons.1 hmem with rfl | hmem
    · exact (ht.dials hn hconnect hv hne n1 hn1).keeps (hrun.cfg.trans hrun1.cfg.symm) hkeeps
    · exact hall key value hv hne hmem

/-! ## What every event keeps -/

/-- The links are in order, and the members are announced, dialled, and not belied. -/
structure Gathered (routes : Routes ι) (members : Members ι) (c : Cluster ι) : Prop where
  wired : ∃ greeted, c.Wired routes greeted
  truthful : Truthful members c
  announced : Announced members c
  met : Met members c

/-- The hub has moved on by itself. -/
theorem Gathered.rehub (hg : Gathered routes members c) {heard : ι → Nat → Nat}
    (hw : ∃ greeted, (⟨h, c.host, c.client, heard, c.read⟩ : Cluster ι).Wired routes greeted)
    (hminds : Minds members c.hub h) {said : Bytes → Bytes → Nat → Prop}
    (hposts : ∃ frames, h.outbox = c.hub.outbox ++ frames ∧ ∀ s ∈ frames, Hub.Tells said s)
    (hsaid : ∀ key value ttl, said key value ttl → members.Honest key value ttl)
    (hheard : ∀ i link, link ∈ (c.client i).links → heard i link = c.heard i link) :
    Gathered routes members (⟨h, c.host, c.client, heard, c.read⟩ : Cluster ι) :=
  ⟨hw, hg.truthful.rehub hminds hposts hsaid c.host heard, hg.announced.rehub hminds c.host heard hheard,
    hg.met.rehub hminds heard⟩

/-- A message that is honest is handled. -/
theorem Gathered.message (hg : Gathered routes members c) {env : Env} {frames : List Bytes}
    (hf : Hub.FitsWire frames) (hhonest : ∀ key value ttl, Hub.Carried frames key value ttl →
      members.Honest key value ttl) (hm : c.hub.handleMessage env frames = .ok h) :
    Minds members c.hub h ∧ ∃ said : Bytes → Bytes → Nat → Prop,
      (∃ frames, h.outbox = c.hub.outbox ++ frames ∧ ∀ s ∈ frames, Hub.Tells said s) ∧
      ∀ key value ttl, said key value ttl → members.Honest key value ttl := by
  obtain ⟨greeted, hw⟩ := hg.wired
  obtain ⟨accepted, returned, hruns⟩ := hw.runs
  refine ⟨minds_message hruns.sound hf hm hhonest, _, Hub.message_tells hruns.sound h hm, ?_⟩
  rintro key value ttl (hcarried | hstored)
  · exact hhonest key value ttl hcarried
  · exact hg.truthful.snapshot hstored

/-- The host's own tuple is the first of a new hub. -/
theorem openHub_host {env : Env} {o : Option (Config × Bytes)} {hub : Hub} {host : Option Node}
    (hlen : ∀ p, o = some p → p.2.length ≤ Zgs.maxLongstrBytes) (h : openHub env o = .ok (hub, host)) :
    (o = none ∧ hub = Hub.init ∧ host = none) ∨ ∃ cfg endpoint, o = some (cfg, endpoint) ∧ host = some (Node.init cfg) ∧
      hub.tuples = Dict.empty.set (encodeStr cfg.peerIdHex) (endpoint, 0) := by
  cases o with
  | none =>
    cases h
    exact Or.inl ⟨rfl, rfl, rfl⟩
  | some p =>
    obtain ⟨cfg, endpoint⟩ := p
    obtain ⟨hub, hp, h⟩ := bind_eq_ok_iff.1 h
    cases h
    refine Or.inr ⟨cfg, endpoint, rfl, rfl, ?_⟩
    rcases Hub.accept_learns (Client.own_fits cfg (hlen _ rfl)) (by decide) hp with ⟨hold, -⟩ | ⟨htuples, -⟩
    · cases hold
    · exact htuples

/-- Every member has announced itself when it was started. -/
theorem Gathered.start (hd : members.Distinct) {hub : Hub} {host : Option Node} {client : ι → Client}
    {env : GossipEnv} {envs : ι → GossipEnv} (hhost : ∀ o, members.host = some o → o.2.length ≤ Zgs.maxLongstrBytes)
    (hhub : openHub env.toEnv members.host = .ok (hub, host)) (hs : ∀ i, (envs i).Sends)
    (h : ∀ i, Client.start (envs i) (members.cfg i) (members.endpoint i) 1 = .ok (client i)) :
    Gathered routes members (⟨hub, host, client, fun _ _ => 0, fun _ _ => 0⟩ : Cluster ι) := by
  have hw : (⟨hub, host, client, fun _ _ => 0, fun _ _ => 0⟩ : Cluster ι).Wired routes [] := Wired.start hhost hhub h
  obtain ⟨-, hout, -⟩ := openHub_runs hhost hhub
  have hstarted : ∀ i, (client i).node = Node.init (members.cfg i) ∧
      (client i).tuples = Dict.empty.set (members.key i) (.text (members.endpoint i), 0) ∧ (client i).links = [0] ∧
        ∀ s ∈ (client i).outbox, (client i).Speaks s := fun i => Client.start_shape (h i)
  have hcached : ∀ i key value ttl, (client i).tuples.get key = some (value, ttl) →
      members.Honest key value.raw ttl ∧ value = .text (members.endpoint i) := by
    intro i key value ttl hk
    rw [(hstarted i).2.1, Dict.get_set] at hk
    split at hk
    · rename_i hkey
      cases hk
      exact ⟨hkey ▸ hd.honest (.client i), rfl⟩
    · cases hk
  refine ⟨⟨[], hw⟩, ⟨⟨?_, fun i key value ttl hk => (hcached i key value ttl hk).1, ?_⟩, ?_⟩, ?_, ?_⟩
  · intro s hs
    rw [show (⟨hub, host, client, fun _ _ => 0, fun _ _ => 0⟩ : Cluster ι).hub.outbox = [] from hout] at hs
    cases hs
  · intro i s hs key value ttl hdec
    obtain ⟨m, hm, hpub⟩ := (hstarted i).2.2.2 s hs
    rw [Zgs.decode_encode hm] at hdec
    cases hdec
    obtain ⟨v, hv, rfl⟩ := hpub key value ttl rfl
    exact (hcached i key v ttl hv).1
  · intro key value expiry hk v hv
    rcases openHub_host hhost hhub with ⟨-, rfl, -⟩ | ⟨cfg, endpoint, ho, -, htuples⟩
    · cases hk
    · replace hk : hub.tuples.get key = _ := hk
      rw [htuples, Dict.get_set] at hk
      split at hk
      · rename_i hkey
        cases hk
        exact ⟨(hd.functional hv (hkey ▸ .host _ ho)), rfl⟩
      · cases hk
  · have hown : ∀ i, (client i).tuples.get (members.key i) = some (.text (members.endpoint i), 0) := by
      intro i
      rw [(hstarted i).2.1]
      exact Dict.get_set_self _ _ _
    have hann : ∀ i link, link ∈ (client i).links →
        (∃ body ∈ (client i).spoken link, Zgs.decode body = .ok (some .hello)) ∧
          ∃ body ∈ (client i).spoken link, members.Own i body := by
      intro i link hlink
      rw [(hstarted i).2.2.1] at hlink
      obtain rfl := List.mem_singleton.1 hlink
      exact announced_own (hown i) (hd.honest (.client i)) ((Client.start_wired (h i)).2 (hs i))
    refine ⟨fun i => ⟨_, _, hown i⟩, fun i link hlink => (hann i link hlink).1,
      fun i link hlink => (hann i link hlink).2, ?_, fun o ho => ?_⟩
    · rintro i link - ⟨body, hbody, -⟩
      simp at hbody
    · rcases openHub_host hhost hhub with ⟨hnone, -⟩ | ⟨cfg, endpoint, ho', -, htuples⟩
      · rw [hnone] at ho
        cases ho
      · rw [ho'] at ho
        cases ho
        show hub.tuples.get _ = _
        rw [htuples]
        exact Dict.get_set_self _ _ _
  · refine ⟨fun i => ?_, fun i key value ttl _ _ hk => ?_, fun o ho => ?_⟩
    · show Runs _ (client i).node
      rw [(hstarted i).1]
      exact ⟨.init _, rfl⟩
    · cases (hcached i key _ ttl hk).2
    · rcases openHub_host hhost hhub with ⟨hnone, -⟩ | ⟨cfg, endpoint, ho', rfl, htuples⟩
      · rw [hnone] at ho
        cases ho
      · rw [ho'] at ho
        cases ho
        refine ⟨_, rfl, ⟨.init _, rfl⟩, fun key value _ hne hk => ?_⟩
        replace hk : hub.tuples.get key = _ := hk
        rw [htuples, Dict.get_set, if_neg (Ne.symm hne)] at hk
        cases hk

/-- Once nothing is on the way the hub has taken all that a client said. -/
theorem Quiet.taken (hquiet : c.Quiet routes) (hlink : link ∈ (c.client i).links) :
    ((c.client i).spoken link).take (c.heard i link) = (c.client i).spoken link := by
  have hsplit := List.take_append_drop (c.heard i link) ((c.client i).spoken link)
  rwa [show ((c.client i).spoken link).drop (c.heard i link) = [] from hquiet.up i link hlink,
    List.append_nil] at hsplit

theorem Gathered.arrives (hg : Gathered routes members c) (hquiet : c.Quiet routes) (i : ι) :
    c.hub.tuples.get (members.key i) = some (members.endpoint i, 0) := by
  obtain ⟨greeted, hw⟩ := hg.wired
  obtain ⟨link, hlinks, -⟩ := (hw.client i).single
  have hlink : link ∈ (c.client i).links := hlinks ▸ List.mem_singleton_self link
  refine hg.announced.arrived i link hlink ?_
  rw [hquiet.taken hlink]
  exact hg.announced.spoken i link hlink

theorem Gathered.cached (hg : Gathered routes members c) (hquiet : c.Quiet routes) (i : ι) {key value : Bytes}
    {expiry : Int} (hk : c.hub.tuples.get key = some (value, expiry)) :
    ∃ ttl, (c.client i).tuples.get key = some (.bytes value, ttl) := by
  obtain ⟨greeted, hw⟩ := hg.wired
  obtain ⟨link, hlinks, -⟩ := (hw.client i).single
  have hlink : link ∈ (c.client i).links := hlinks ▸ List.mem_singleton_self link
  refine hw.agrees hlink ?_ (hquiet.down i link hlink) hk
  rw [Greeted, hquiet.taken hlink]
  exact hg.announced.hello i link hlink

/-! ## Steps of the cluster -/

variable [DecidableEq ι]

/-- A client has moved on, on its link or with a new one. -/
theorem Announced.reclient {greeted : List Bytes} (ha : Announced members c) (hw : c.Wired routes greeted)
    {d : Client} (hown : ∃ value ttl, d.tuples.get (members.key i) = some (value, ttl) ∧
      members.Honest (members.key i) value.raw ttl) (hout : (c.client i).outbox <+: d.outbox)
    (hlinks : ∀ link ∈ d.links, link ∈ (c.client i).links ∨ (c.client i).nextLink ≤ link ∧ d.Announced link)
    (read : ι → Nat → Nat) :
    Announced members (⟨c.hub, c.host, Function.update c.client i d, c.heard, read⟩ : Cluster ι) := by
  obtain ⟨value, ttl, hget, hhonest⟩ := hown
  have hspoken : ∀ link, (c.client i).spoken link <+: d.spoken link := by
    obtain ⟨sent, hsent⟩ := hout
    exact Client.spoken_grows hsent.symm
  have hcases : ∀ j, (Function.update c.client i d j) = c.client j ∨ j = i ∧ Function.update c.client i d j = d := by
    intro j
    by_cases hj : j = i
    · subst hj
      exact Or.inr ⟨rfl, Function.update_self ..⟩
    · exact Or.inl (Function.update_of_ne hj ..)
  constructor
  · intro j
    show ∃ value ttl, (Function.update c.client i d j).tuples.get _ = _
    rcases hcases j with hj | ⟨rfl, hj⟩ <;> rw [hj]
    · exact ha.own j
    · exact ⟨value, ttl, hget⟩
  · intro j link
    show link ∈ (Function.update c.client i d j).links → ∃ body ∈ (Function.update c.client i d j).spoken link, _
    rcases hcases j with hj | ⟨rfl, hj⟩ <;> rw [hj]
    · exact ha.hello j link
    · intro hlink
      rcases hlinks link hlink with hlink | ⟨-, hann⟩
      · obtain ⟨body, hbody, hdec⟩ := ha.hello j link hlink
        exact ⟨body, (hspoken link).subset hbody, hdec⟩
      · exact (announced_own hget hhonest hann).1
  · intro j link
    show link ∈ (Function.update c.client i d j).links → ∃ body ∈ (Function.update c.client i d j).spoken link, _
    rcases hcases j with hj | ⟨rfl, hj⟩ <;> rw [hj]
    · exact ha.spoken j link
    · intro hlink
      rcases hlinks link hlink with hlink | ⟨-, hann⟩
      · obtain ⟨body, hbody, hdec⟩ := ha.spoken j link hlink
        exact ⟨body, (hspoken link).subset hbody, hdec⟩
      · exact (announced_own hget hhonest hann).2
  · intro j link
    show link ∈ (Function.update c.client i d j).links →
      (∃ body ∈ ((Function.update c.client i d j).spoken link).take (c.heard j link), _) → _
    rcases hcases j with hj | ⟨rfl, hj⟩ <;> rw [hj]
    · exact ha.arrived j link
    · rintro hlink ⟨body, hbody, hbodyOwn⟩
      rw [take_eq_of_start (hspoken link) (hw.heard j link)] at hbody
      rcases hlinks link hlink with hlink | ⟨hnew, -⟩
      · exact ha.arrived j link hlink ⟨body, hbody, hbodyOwn⟩
      · rw [(hw.client j).spoken_eq_nil hnew] at hbody
        simp at hbody
  · exact ha.hosted

/-- A client has moved on: it runs, and has dialled what is new in its cache. -/
theorem Met.reclient (hm : Met members c) {d : Client} (hruns : Runs (members.cfg i) d.node)
    (hkeeps : (c.client i).node.Keeps d.node)
    (hnew : ∀ key value ttl, members.Announces key value → key ≠ members.key i →
      d.tuples.get key = some (.bytes value, ttl) →
        (c.client i).tuples.get key = some (.bytes value, ttl) ∨ Has d.node key) (read : ι → Nat → Nat) :
    Met members (⟨c.hub, c.host, Function.update c.client i d, c.heard, read⟩ : Cluster ι) := by
  refine ⟨fun j => ?_, fun j key value ttl hv hne hk => ?_, hm.host⟩
  · show Runs _ (Function.update c.client i d j).node
    by_cases hj : j = i
    · subst hj
      rw [Function.update_self]
      exact hruns
    · rw [Function.update_of_ne hj]
      exact hm.runs j
  · show Has (Function.update c.client i d j).node key
    replace hk : (Function.update c.client i d j).tuples.get key = _ := hk
    by_cases hj : j = i
    · subst hj
      rw [Function.update_self] at hk ⊢
      rcases hnew key value ttl hv hne hk with hold | hhas
      · exact (hm.dialled j key value ttl hv hne hold).keeps (hruns.cfg.trans (hm.runs j).cfg.symm) hkeeps
      · exact hhas
    · rw [Function.update_of_ne hj] at hk ⊢
      exact hm.dialled j key value ttl hv hne hk

/-- The hub has taken the next frame of a client. -/
theorem Gathered.hear (hg : Gathered routes members c) {env : Env} {body : Bytes} {rest : List Bytes}
    (hup : c.up i link = body :: rest) (hm : c.hub.handleMessage env [routes.id i link, body] = .ok h)
    (hw : ∃ greeted, (⟨h, c.host, c.client, bump c.heard i link, c.read⟩ : Cluster ι).Wired routes greeted) :
    Gathered routes members (⟨h, c.host, c.client, bump c.heard i link, c.read⟩ : Cluster ι) := by
  obtain ⟨greeted, hwired⟩ := hg.wired
  have hmem : body ∈ (c.client i).spoken link := List.mem_of_mem_drop (hup ▸ List.mem_cons_self)
  have hfits := spoken_fits (hwired.client i) hmem (routes.id i link)
  obtain ⟨s, hs, -, -, rfl⟩ := Client.mem_spoken.1 hmem
  have hhonest : ∀ key value ttl, Hub.Carried [routes.id i link, s.body] key value ttl →
      members.Honest key value ttl := by
    rintro key value ttl ⟨id, b, heq, hdec⟩
    cases heq
    exact hg.truthful.sent i s hs key value ttl hdec
  obtain ⟨hminds, said, hposts, hsaid⟩ := hg.message hfits hhonest hm
  have htruth := hg.truthful.rehub hminds hposts hsaid c.host (bump c.heard i link)
  refine ⟨hw, htruth, ?_, hg.met.rehub hminds _⟩
  have hold := hg.announced.rehub hminds c.host c.heard fun _ _ _ => rfl
  refine ⟨hold.own, hold.hello, hold.spoken, fun j l hl => ?_, hold.hosted⟩
  rintro ⟨b, hb, hown⟩
  replace hb : b ∈ ((c.client j).spoken l).take (bump c.heard i link j l) := hb
  rw [bump_apply] at hb
  split at hb
  · rename_i hjl
    obtain ⟨rfl, rfl⟩ := hjl
    rw [(take_succ_of_drop hup).2] at hb
    rcases List.mem_append.1 hb with hb | hb
    · exact hold.arrived j l hl ⟨b, hb, hown⟩
    · obtain rfl := List.mem_singleton.1 hb
      obtain ⟨expiry, hk⟩ := Hub.message_stores hfits hm ⟨_, _, rfl, hown⟩
      obtain ⟨-, rfl⟩ := htruth.stored _ _ expiry hk _ (.client j)
      exact hk
  · exact hold.arrived j l hl ⟨b, hb, hown⟩

/-- A client has taken the next frame from its link. -/
theorem Gathered.take (hg : Gathered routes members c) (ht : ∀ i, Taker members (members.key i) (members.cfg i))
    {env : GossipEnv} (hconnect : ∀ m, env.connect m = true) (hlink : link ∈ (c.client i).links) {s : Bytes × Bytes}
    {rest : List (Bytes × Bytes)} (hdown : c.down routes i link = s :: rest) {d : Client}
    (hd : (c.client i).receive env link s.2 = .ok d) :
    Gathered routes members
      (⟨c.hub, c.host, Function.update c.client i d, c.heard, bump c.read i link⟩ : Cluster ι) := by
  obtain ⟨greeted, hw⟩ := hg.wired
  obtain ⟨only, hsingle, honly⟩ := (hw.client i).single
  obtain rfl : link = only := by simpa [hsingle] using hlink
  have hs : s ∈ c.hub.outbox :=
    (Hub.mem_posted.1 (List.mem_of_mem_drop (hdown ▸ List.mem_cons_self))).1
  have htruth : Truthful members
      (⟨c.hub, c.host, Function.update c.client i d, c.heard, bump c.read i link⟩ : Cluster ι) :=
    ⟨hg.truthful.toSpread.take honly hs hd _, hg.truthful.stored⟩
  obtain ⟨-, hlinks, -, hout⟩ := (hw.client i).receive honly hd
  have hown : ∃ value ttl, d.tuples.get (members.key i) = some (value, ttl) := by
    obtain ⟨value, ttl, hk⟩ := hg.announced.own i
    rcases Client.receive_shape honly hd with ⟨key, v, t, n, -, ⟨-, -, rfl⟩ | ⟨-, rfl⟩⟩ | ⟨-, hcalls, -⟩
    · show ∃ value ttl, ((c.client i).tuples.set key (.bytes v, t)).get (members.key i) = some (value, ttl)
      rw [Dict.get_set]
      split
      · exact ⟨_, _, rfl⟩
      · exact ⟨value, ttl, hk⟩
    · exact ⟨value, ttl, hk⟩
    · exact ⟨value, ttl, hcalls.tuples ▸ hk⟩
  obtain ⟨value, ttl, hget⟩ := hown
  have hhonest : members.Honest (members.key i) value.raw ttl := by
    refine htruth.cached i _ value ttl ?_
    show (Function.update c.client i d i).tuples.get _ = _
    rw [Function.update_self]
    exact hget
  refine ⟨⟨greeted, hw.take hlink hdown hd⟩, htruth,
    hg.announced.reclient hw ⟨value, ttl, hget, hhonest⟩ hout (fun l hl => Or.inl (hlinks ▸ hl)) _, ?_⟩
  have hruns := hg.met.runs i
  rcases Client.receive_shape honly hd with ⟨key, v, t, n, hdec, ⟨hnew, hn, rfl⟩ | ⟨-, rfl⟩⟩ | ⟨-, hcalls, -, -, hnode⟩
  · have hstep : (c.client i).node.step env.toEnv (.gossip (bdec key) (bdec v)) = .ok n := hn
    refine hg.met.reclient (hruns.step hstep) (Node.keeps_gossipRequire _ _ n hn) (fun k w t' hv hne hk => ?_) _
    replace hk : ((c.client i).tuples.set key (.bytes v, t)).get k = some (.bytes w, t') := hk
    rw [Dict.get_set] at hk
    split at hk
    · rename_i hkey
      subst hkey
      cases hk
      exact Or.inr ((ht i).dials hruns hconnect hv hne n hn)
    · exact Or.inl hk
  · exact hg.met.reclient (d := { c.client i with lastRx := (c.client i).lastRx.set link env.now }) hruns
      (fun _ h => h) (fun k w t' _ _ hk => Or.inl hk) _
  · refine hg.met.reclient (hnode ▸ hruns) (Node.keeps_of_eq (by rw [hnode])) (fun k w t' _ _ hk => Or.inl ?_) _
    rwa [hcalls.tuples] at hk

/-- Something has happened at the node of a client. -/
theorem Gathered.node (hg : Gathered routes members c) {env : GossipEnv} (hsends : env.Sends) {input : Input}
    (hkeeps : Ensures ((c.client i).node.step env.toEnv input) (c.client i).node.Keeps) {d : Client}
    (hd : (c.client i).step env (.node input) = .ok d) :
    Gathered routes members ({ c with client := Function.update c.client i d } : Cluster ι) := by
  obtain ⟨greeted, hw⟩ := hg.wired
  have hcalls := Client.calls_node (hw.client i) d hd
  obtain ⟨sent, hout, -⟩ := hcalls.outbox
  have htruth : Truthful members ({ c with client := Function.update c.client i d } : Cluster ι) :=
    ⟨hg.truthful.toSpread.call hcalls, hg.truthful.stored⟩
  obtain ⟨value, ttl, hk⟩ := hg.announced.own i
  have hnode : (c.client i).node.step env.toEnv input = .ok d.node := Client.node_step hd
  refine ⟨⟨greeted, hw.call hcalls⟩, htruth, ?_, ?_⟩
  · refine hg.announced.reclient hw ⟨value, ttl, hcalls.tuples ▸ hk, hg.truthful.cached i _ value ttl hk⟩
      (hout ▸ List.prefix_append _ _) (fun l hl => ?_) c.read
    rcases hcalls.links with ⟨hlinks, -⟩ | ⟨hlinks, -, hann⟩
    · exact Or.inl (hlinks ▸ hl)
    · rw [hlinks] at hl
      obtain rfl := List.mem_singleton.1 hl
      exact Or.inr ⟨le_rfl, hann hsends⟩
  · refine hg.met.reclient ((hg.met.runs i).step hnode) (hkeeps _ hnode) (fun k w t _ _ hk => Or.inl ?_) c.read
    rwa [hcalls.tuples] at hk

/-- Every event keeps the members known. -/
theorem Gathered.step (hg : Gathered routes members c) (ht : ∀ i, Taker members (members.key i) (members.cfg i))
    (hhost : ∀ o, members.host = some o → Taker members (encodeStr o.1.peerIdHex) o.1)
    {env : GossipEnv} {event : Event ι} (hp : Peaceful routes members c env event)
    (hs : c.step routes env event = .ok c') : Gathered routes members c' := by
  obtain ⟨greeted, hw⟩ := hg.wired
  obtain ⟨accepted, returned, hruns⟩ := hw.runs
  have hw' := hw.step hp.welcome hs
  have hsilent : (∃ frames, c.hub.outbox = c.hub.outbox ++ frames ∧ ∀ s ∈ frames, Hub.Tells members.Honest s) :=
    ⟨[], by simp, by simp⟩
  cases event with
  | node i input =>
    obtain ⟨d, hd, hs⟩ := bind_eq_ok_iff.1 hs
    cases hs
    exact hg.node hp.sends (hp.client i input rfl) hd
  | host input =>
    simp only [Cluster.step] at hs
    split at hs
    · cases hs
      exact hg
    · rename_i n hn
      obtain ⟨n', hn', hs⟩ := bind_eq_ok_iff.1 hs
      cases hs
      refine ⟨hw', ⟨⟨hg.truthful.posted, hg.truthful.cached, hg.truthful.sent⟩, hg.truthful.stored⟩,
        ⟨hg.announced.own, hg.announced.hello, hg.announced.spoken, hg.announced.arrived, hg.announced.hosted⟩,
        hg.met.runs, hg.met.dialled, fun o ho => ?_⟩
      obtain ⟨m, hm, hrun, hknown⟩ := hg.met.host o ho
      rw [hn] at hm
      cases hm
      have hrun' := hrun.step hn'
      refine ⟨n', rfl, hrun', fun key value hv hne hk => (hknown key value hv hne hk).imp (fun h => h) fun h => ?_⟩
      exact h.keeps (hrun'.cfg.trans hrun.cfg.symm) (hp.host input n rfl hn n' hn')
  | hear i link =>
    simp only [Cluster.step] at hs
    cases hup : c.up i link with
    | nil =>
      simp only [hup] at hs
      cases hs
      exact hg
    | cons body rest =>
      simp only [hup] at hs
      obtain ⟨hub, hm, hs⟩ := bind_eq_ok_iff.1 hs
      cases hs
      exact hg.hear hup hm hw'
  | take i link =>
    simp only [Cluster.step] at hs
    cases hdown : c.down routes i link with
    | nil =>
      simp only [hdown] at hs
      cases hs
      exact hg
    | cons s rest =>
      simp only [hdown] at hs
      split at hs
      · rename_i hlink
        obtain ⟨d, hd, hs⟩ := bind_eq_ok_iff.1 hs
        cases hs
        exact hg.take ht hp.connects hlink hdown hd
      · cases hs
        exact hg
  | lose i link =>
    simp only [Cluster.step] at hs
    split at hs
    · cases hs
      exact hg
    · rename_i hclosed
      cases hs
      refine hg.rehub hw' (minds_of_eq rfl rfl) hsilent (fun _ _ _ h => h) fun j l hl => ?_
      rw [bump_apply, if_neg]
      rintro ⟨rfl, rfl⟩
      exact hclosed (Or.inl hl)
  | stranger frames =>
    obtain ⟨hub, hm, hs⟩ := bind_eq_ok_iff.1 hs
    cases hs
    obtain ⟨hminds, said, hposts, hsaid⟩ := hg.message hp.welcome.1 (hp.stranger frames rfl) hm
    exact hg.rehub hw' hminds hposts hsaid fun _ _ _ => rfl
  | reap =>
    cases hs
    exact hg.rehub hw' (minds_reap env.toEnv c.hub) hsilent (fun _ _ _ h => h) fun _ _ _ => rfl
  | publish key value ttl =>
    obtain ⟨hub, hm, hs⟩ := bind_eq_ok_iff.1 hs
    cases hs
    have hposts : Hub.Posts members.Honest c.hub hub := Hub.posts_accept (hp.publish key value ttl rfl) hub hm
    obtain ⟨new, hout, hnew⟩ := hposts.outbox
    refine hg.rehub hw' ?_ ⟨new, hout, fun s hs => (hnew s hs).2⟩ (fun _ _ _ h => h) fun _ _ _ => rfl
    rcases Hub.accept_learns hp.welcome.1 hp.welcome.2 hm with ⟨-, rfl⟩ | hlearns
    · exact minds_of_eq rfl rfl
    · exact minds_learns hlearns (hp.publish key value ttl rfl)
  | unpublish key =>
    cases hs
    exact hg.rehub hw' (minds_unpublish fun v => hp.unpublish key v rfl) hsilent (fun _ _ _ h => h) fun _ _ _ => rfl
  | collect =>
    have hcollect : ∀ host : Option Node, (∀ o, members.host = some o → ∃ n, host = some n ∧ Runs o.1 n ∧
        ∀ key value, members.Announces key value → key ≠ encodeStr o.1.peerIdHex →
          c.hub.tuples.get key = some (value, 0) → Has n key) →
        (∃ greeted, (⟨{ c.hub with pending := [] }, host, c.client, c.heard, c.read⟩ : Cluster ι).Wired routes
          greeted) →
        Gathered routes members (⟨{ c.hub with pending := [] }, host, c.client, c.heard, c.read⟩ : Cluster ι) := by
      intro host hhas hw
      refine ⟨hw, ⟨⟨hg.truthful.posted, hg.truthful.cached, hg.truthful.sent⟩, hg.truthful.stored⟩,
        ⟨hg.announced.own, hg.announced.hello, hg.announced.spoken, hg.announced.arrived, hg.announced.hosted⟩,
        hg.met.runs, hg.met.dialled, fun o ho => ?_⟩
      obtain ⟨n, hn, hrun, hknown⟩ := hhas o ho
      exact ⟨n, hn, hrun, fun key value hv hne hk => Or.inr (hknown key value hv hne hk)⟩
    simp only [Cluster.step, Hub.deliveries] at hs
    split at hs
    · rename_i hnone
      cases hs
      refine hcollect _ (fun o ho => ?_) hw'
      obtain ⟨n, hn, -⟩ := hg.met.host o ho
      rw [hnone] at hn
      cases hn
    · rename_i n hn
      obtain ⟨n', hn', hs⟩ := bind_eq_ok_iff.1 hs
      cases hs
      refine hcollect _ (fun o ho => ?_) hw'
      obtain ⟨m, hm, hrun, hknown⟩ := hg.met.host o ho
      rw [hn] at hm
      cases hm
      obtain ⟨hrun', hkeeps, hall⟩ := require_has (hhost o ho) hp.connects hrun n' hn'
      refine ⟨n', rfl, hrun', fun key value hv hne hk => ?_⟩
      rcases hknown key value hv hne hk with hwaits | hhas
      · exact hall key value hv hne hwaits
      · exact hhas.keeps (hrun'.cfg.trans hrun.cfg.symm) hkeeps

/-- In every run the members are gathered. -/
theorem RunBy.gathered (hd : members.Distinct) (hdial : members.Dialable)
    (h : RunBy GossipEnv.Sends (Peaceful routes members) routes members c) : Gathered routes members c := by
  have ht : ∀ i, Taker members (members.key i) (members.cfg i) := fun i =>
    ⟨rfl, hdial.plain i, hdial.endpoint i⟩
  have hhost : ∀ o, members.host = some o → Taker members (encodeStr o.1.peerIdHex) o.1 := fun o ho =>
    ⟨rfl, hdial.plainHost o ho, hdial.endpointHost o ho⟩
  induction h with
  | start env envs hlens hhub hlen hs h => exact Gathered.start hd hlens hhub hs h
  | step env event hc hp h ih => exact ih.step ht hhost hp h

/-- In every run in which nothing fails, no peer is given up and nobody else announces anything under the key of a
member, once nothing is on the way each client has every other member in its peer table, and so has the host. -/
theorem RunBy.discovers (hd : members.Distinct) (hdial : members.Dialable)
    (h : RunBy GossipEnv.Sends (Peaceful routes members) routes members c) (hquiet : c.Quiet routes) :
    (∀ i j, i ≠ j → (c.client i).node.peers.contains (members.cfg j).peerIdHex = true) ∧
      ∀ o, members.host = some o → ∃ n, c.host = some n ∧ ∀ i,
        (c.client i).node.peers.contains o.1.peerIdHex = true ∧
          n.peers.contains (members.cfg i).peerIdHex = true := by
  have hg := h.gathered hd hdial
  have hclient : ∀ i key value expiry, members.Announces key value → key ≠ members.key i →
      c.hub.tuples.get key = some (value, expiry) → Has (c.client i).node key := by
    intro i key value expiry hv hne hk
    obtain ⟨ttl, hcached⟩ := hg.cached hquiet i hk
    exact hg.met.dialled i key value ttl hv hne hcached
  have hcontains : ∀ {n : Node} {b : Bytes}, Has n (encodeStr (hex b)) → n.peers.contains (hex b) = true := by
    intro n b hhas
    rwa [Has, lower_ownKey] at hhas
  constructor
  · intro i j hij
    refine hcontains (hclient i _ _ _ (.client j) (fun hkey => hij ?_) (hg.arrives hquiet j))
    exact (hd.clients j i (ownKey_injective hkey)).symm
  · intro o ho
    obtain ⟨n, hn, hrun, hknown⟩ := hg.met.host o ho
    refine ⟨n, hn, fun i => ⟨hcontains ?_, hcontains ?_⟩⟩
    · refine hclient i _ _ _ (.host o ho) (fun hkey => ?_) (hg.announced.hosted o ho)
      exact hd.host o ho i (ownKey_injective hkey).symm
    · have hne : members.key i ≠ encodeStr o.1.peerIdHex := fun hkey => hd.host o ho i (ownKey_injective hkey)
      rcases hknown _ _ (.client i) hne (hg.arrives hquiet i) with hwaits | hhas
      · rw [hquiet.pending] at hwaits
        cases hwaits
      · exact hhas

/-! ## A sample -/

theorem sample_distinct : sampleMembers.Distinct := by
  constructor
  · intro i j h
    cases i <;> cases j <;> first | rfl | cases h
  · rintro o ⟨⟩ i h
    cases i <;> cases h

theorem sample_dialable : sampleMembers.Dialable := by
  have hsplit : ∀ key value, sampleMembers.Announces key value → ∃ addr port,
      splitEndpoint Runtime.ascii (partition '|' (bdec value)).1 = .ok (addr, port) := by
    rintro _ _ (i | ⟨o, ⟨⟩⟩)
    · cases i
      · exact ⟨"10.0.0.1".toList, 4001, by decide +kernel⟩
      · exact ⟨"10.0.0.3".toList, 4003, by decide +kernel⟩
    · exact ⟨"10.0.0.2".toList, 4002, by decide +kernel⟩
  refine ⟨fun i => by cases i <;> rfl, ?_, fun i => ?_, ?_⟩
  · rintro _ ⟨⟩
    rfl
  · cases i <;> exact hsplit
  · rintro _ ⟨⟩
    exact hsplit

theorem peaceful_mail {c : Cluster Bool} {event : Event Bool} (he : Mail event) :
    Peaceful sampleRoutes sampleMembers c (GossipEnv.calm 0) event := by
  rcases he with ⟨i, link, rfl | rfl⟩ | rfl <;>
    exact ⟨trivial, fun _ => rfl, fun _ => rfl, by rintro _ _ ⟨⟩, by rintro _ _ ⟨⟩, by rintro _ ⟨⟩, by rintro _ _ _ ⟨⟩,
      by rintro _ _ ⟨⟩⟩

theorem sample_run :
    RunBy GossipEnv.Sends (Peaceful sampleRoutes sampleMembers) sampleRoutes sampleMembers (sampleAfter 11) :=
  sample_runs (fun _ => rfl) (fun _ _ => peaceful_mail) le_rfl

theorem sample_quiet : (sampleAfter 11).Quiet sampleRoutes := by
  have hlinks : ∀ i, ((sampleAfter 11).client i).links = [0] := by decide +kernel
  refine ⟨fun i link hlink => ?_, fun i link hlink => ?_, by decide +kernel⟩
  · rw [hlinks] at hlink
    obtain rfl := List.mem_singleton.1 hlink
    revert i
    decide +kernel
  · rw [hlinks] at hlink
    obtain rfl := List.mem_singleton.1 hlink
    revert i
    decide +kernel

/-- Everybody knows everybody. -/
theorem sample_discovers :
    ((sampleAfter 11).client false).node.peers.contains (sampleMembers.cfg true).peerIdHex = true ∧
      ((sampleAfter 11).client true).node.peers.contains (hex sampleUuid) = true ∧
        ∃ n, (sampleAfter 11).host = some n ∧ n.peers.contains Node.sampleA.cfg.peerIdHex = true := by
  obtain ⟨hclients, hhost⟩ := sample_run.discovers sample_distinct sample_dialable sample_quiet
  obtain ⟨n, hn, hall⟩ := hhost _ rfl
  exact ⟨hclients false true (by decide), (hall true).1, n, hn, (hall false).2⟩

end Cluster

end Zre
