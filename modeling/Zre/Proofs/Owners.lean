import Zre.Lib.LastWord
import Zre.Proofs.Gathering

/-!
# Proofs: whose word the hub holds

Whoever redials a link publishes all that it caches, of others too, and the hub takes what comes last. So the hub ends
with the last word of a key's own node in the runs in which nobody publishes anything older.
-/

namespace Zre

open Fallible

namespace Cluster

/-! ## The last word -/

variable {ι : Type} {members : Members ι} {routes : Routes ι} {a a' : Annals ι} {i : ι} {link : Nat} {key value : Bytes}

theorem Members.word_eq_some {s : ι × LinkSend} : members.word key s = some value ↔
    Zgs.published s.2.body = some (key, value) ∧ s.2.sent = true ∧ members.key s.1 = key := by
  unfold Members.word
  cases hpub : Zgs.published s.2.body with
  | none => simp
  | some t =>
    obtain ⟨k, v⟩ := t
    simp only [Option.ite_none_right_eq_some, Option.some.injEq, Prod.mk.injEq]
    constructor
    · rintro ⟨⟨hsent, hk, hkey⟩, hv⟩
      exact ⟨⟨hk, hv⟩, hsent, hkey⟩
    · rintro ⟨⟨hk, hv⟩, hsent, hkey⟩
      exact ⟨⟨hsent, hk, hkey⟩, hv⟩

theorem Members.lastSaid_append (members : Members ι) (log new : List (ι × LinkSend)) (key : Bytes) :
    members.lastSaid (log ++ new) key =
      ((new.filterMap (members.word key)).getLast?).or (members.lastSaid log key) := by
  rw [Members.lastSaid, List.filterMap_append, List.getLast?_append, Option.or_assoc]
  rfl

/-- Nothing new was said for the key. -/
theorem Members.lastSaid_of_still (log : List (ι × LinkSend)) {new : List (ι × LinkSend)}
    (h : ∀ s ∈ new, members.word key s = none) : members.lastSaid (log ++ new) key = members.lastSaid log key := by
  rw [members.lastSaid_append, List.filterMap_eq_nil_iff.2 h]
  rfl

/-- One value was said for the key. -/
theorem Members.lastSaid_of_spoken (log : List (ι × LinkSend)) {new : List (ι × LinkSend)} {s : ι × LinkSend}
    (hs : s ∈ new) (hword : members.word key s = some value)
    (hone : ∀ s ∈ new, ∀ v, members.word key s = some v → v = value) :
    members.lastSaid (log ++ new) key = some value := by
  have hmem : value ∈ new.filterMap (members.word key) := List.mem_filterMap.2 ⟨s, hs, hword⟩
  rw [members.lastSaid_append]
  cases hlast : (new.filterMap (members.word key)).getLast? with
  | none =>
    rw [List.getLast?_eq_none_iff.1 hlast] at hmem
    cases hmem
  | some v =>
    obtain ⟨t, ht, htword⟩ := List.mem_filterMap.1 (List.mem_of_getLast? hlast)
    rw [hone t ht v htword]
    rfl

/-! ## What every move keeps -/

/-- What clients say is told on, cached and stored without a time limit, and the hub keeps up with the last words. -/
structure Upheld (routes : Routes ι) (members : Members ι) (a : Annals ι) : Prop where
  wired : ∃ greeted, a.cluster.Wired routes greeted
  spread : Spread (fun _ _ ttl => ttl = 0) a.cluster
  lasting : ∀ key value expiry, a.cluster.hub.tuples.get key = some (value, expiry) → expiry = 0
  idle : ∀ i, a.online i = false → (∀ link, a.cluster.heard i link = 0) ∧
    ∀ s ∈ (a.cluster.client i).outbox, (a.cluster.client i).Relayed (a.cluster.client i) s
  keys : ∀ i, ∀ s ∈ (a.cluster.client i).outbox, ∀ key value, Zgs.published s.body = some (key, value) →
    ∃ e, (a.cluster.client i).tuples.get key = some e
  kept : LastWord.Kept (members.lastSaid a.log) a.OnWay a.Due fun key value =>
    a.cluster.hub.tuples.get key = some (value, 0)

/-- The hub and the host start without any word of a client. -/
theorem Upheld.start [DecidableEq ι] {hub : Hub} {host : Option Node} {client : ι → Client} {env : GossipEnv}
    {envs : ι → GossipEnv} (hhost : ∀ o, members.host = some o → o.2.length ≤ Zgs.maxLongstrBytes)
    (hhub : openHub env.toEnv members.host = .ok (hub, host)) (hs : ∀ i, (envs i).Sends)
    (h : ∀ i, Client.start (envs i) (members.cfg i) (members.endpoint i) 1 = .ok (client i)) :
    Upheld routes members ⟨⟨hub, host, client, fun _ _ => 0, fun _ _ => 0⟩, fun _ => false, []⟩ := by
  obtain ⟨-, hout, -⟩ := openHub_runs hhost hhub
  have hcached : ∀ i key value ttl, (client i).tuples.get key = some (value, ttl) → ttl = 0 := by
    intro i key value ttl hk
    rw [(Client.start_shape (h i)).2.1, Dict.get_set] at hk
    split at hk <;> cases hk
    rfl
  have hrelays := fun i => Client.relays_start (hs i) (h i)
  constructor
  · exact ⟨[], Wired.start hhost hhub h⟩
  · refine ⟨fun s hs => ?_, hcached, fun i s hs key value ttl hdec => ?_⟩
    · rw [show (⟨hub, host, client, fun _ _ => 0, fun _ _ => 0⟩ : Cluster ι).hub.outbox = [] from hout] at hs
      cases hs
    · obtain ⟨m, hm, hpub⟩ := (Client.start_shape (h i)).2.2.2 s hs
      rw [Zgs.decode_encode hm] at hdec
      cases hdec
      obtain ⟨v, hv, -⟩ := hpub key value ttl rfl
      exact hcached i key v ttl hv
  · intro key value expiry hk
    rcases openHub_host hhost hhub with ⟨-, rfl, -⟩ | ⟨cfg, endpoint, -, -, htuples⟩
    · cases hk
    · replace hk : hub.tuples.get key = _ := hk
      rw [htuples, Dict.get_set] at hk
      split at hk <;> cases hk
      rfl
  · exact fun i _ => ⟨fun _ => rfl, hrelays i⟩
  · intro i s hs key value hpub
    obtain ⟨-, v, ttl, hk, -⟩ := (hrelays i s hs).2 key value hpub
    exact ⟨_, hk⟩
  · refine .init (fun key value hlast => ?_) fun key value honWay => ?_
    swap
    · obtain ⟨i, link, hon, -⟩ := honWay
      cases hon
    replace hlast : members.hosted key = some value := hlast
    unfold Members.hosted at hlast
    rcases openHub_host hhost hhub with ⟨hnone, -⟩ | ⟨cfg, endpoint, hsome, -, htuples⟩
    · rw [hnone] at hlast
      cases hlast
    · rw [hsome] at hlast
      simp only [Option.ite_none_right_eq_some, Option.some.injEq] at hlast
      obtain ⟨rfl, rfl⟩ := hlast
      show hub.tuples.get _ = _
      rw [htuples]
      exact Dict.get_set_self _ _ _

/-- A client has said one value for each of some keys, all of them current. -/
theorem Upheld.speak (hu : Upheld routes members a) {sent : List LinkSend}
    (hlog : a'.log = a.log ++ sent.map fun s => (i, s)) (hcurrent : ∀ s ∈ sent, members.Current a (i, s))
    {d e : Client} (hsent : ∀ s ∈ sent, d.Relayed e s)
    (honWay : ∀ key v, a'.OnWay key v → a.OnWay key v ∨ ∃ s ∈ sent, Zgs.published s.body = some (key, v))
    (hdue : ∀ s ∈ sent, ∀ key v, Zgs.published s.body = some (key, v) → a'.Due key v)
    (hstill : ∀ key v, (∀ s ∈ sent, ∀ w, Zgs.published s.body ≠ some (key, w)) → a.Due key v → a'.Due key v)
    (hhub : a'.cluster.hub = a.cluster.hub) :
    LastWord.Kept (members.lastSaid a'.log) a'.OnWay a'.Due fun key value =>
      a'.cluster.hub.tuples.get key = some (value, 0) := by
  rw [hhub, hlog]
  refine hu.kept.speak (fun key v => ∃ s ∈ sent, Zgs.published s.body = some (key, v))
    (fun key => members.key i = key) ?_ ?_ ?_ honWay (fun key v ⟨s, hs, hpub⟩ => hdue s hs key v hpub)
    fun key v hno => hstill key v fun s hs w hpub => hno w ⟨s, hs, hpub⟩
  · rintro key v ⟨s, hs, hpub⟩
    exact hcurrent s hs key v hpub
  · rintro key v ⟨s, hs, hpub⟩ hown
    refine members.lastSaid_of_spoken a.log (List.mem_map_of_mem hs)
      (Members.word_eq_some.2 ⟨hpub, (hsent s hs).1, hown⟩) fun t ht w hword => ?_
    obtain ⟨r, hr, rfl⟩ := List.mem_map.1 ht
    exact (hsent r hr).functional (hsent s hs) (Members.word_eq_some.1 hword).1 hpub
  · intro key hno
    refine members.lastSaid_of_still a.log fun t ht => ?_
    obtain ⟨r, hr, rfl⟩ := List.mem_map.1 ht
    refine Option.eq_none_iff_forall_ne_some.2 fun v hword => ?_
    obtain ⟨hpub, -, hown⟩ := Members.word_eq_some.1 hword
    exact hno v ⟨r, hr, hpub⟩ hown

/-- A client connects: what it said when it was started is on the way now. -/
theorem Upheld.connect [DecidableEq ι] (hu : Upheld routes members a) (hoff : a.online i = false)
    (hcurrent : ∀ s ∈ (a.cluster.client i).outbox, members.Current a (i, s)) :
    Upheld routes members { a with
      online := Function.update a.online i true
      log := a.log ++ (a.cluster.client i).outbox.map fun s => (i, s) } := by
  obtain ⟨hheard, hrelays⟩ := hu.idle i hoff
  have hon : ∀ j, a.online j = true → Function.update a.online i true j = true := by
    intro j hj
    by_cases hji : j = i
    · rw [hji, Function.update_self]
    · rw [Function.update_of_ne hji]
      exact hj
  have hup : ∀ link, a.cluster.up i link = (a.cluster.client i).spoken link := by
    intro link
    rw [up, hheard, List.drop_zero]
  refine ⟨hu.wired, hu.spread, hu.lasting, fun j hj => hu.idle j ?_, hu.keys,
    hu.speak rfl hcurrent hrelays ?_ ?_ ?_ rfl⟩
  · by_contra hj'
    cases (hon j (Bool.eq_true_of_not_eq_false hj')).symm.trans hj
  · rintro key v ⟨j, link, hj, body, hbody, hpub⟩
    by_cases hji : j = i
    · subst hji
      replace hbody : body ∈ a.cluster.up j link := hbody
      rw [hup] at hbody
      obtain ⟨s, hs, -, -, rfl⟩ := Client.mem_spoken.1 hbody
      exact Or.inr ⟨s, hs, hpub⟩
    · replace hj : Function.update a.online i true j = true := hj
      rw [Function.update_of_ne hji] at hj
      exact Or.inl ⟨j, link, hj, body, hbody, hpub⟩
  · intro s hs key v hpub
    obtain ⟨hlink, -⟩ := (hrelays s hs).2 key v hpub
    refine ⟨i, s.link, Function.update_self .., hlink, s.body, ?_, hpub⟩
    show s.body ∈ a.cluster.up i s.link
    rw [hup]
    exact Client.mem_spoken.2 ⟨s, hs, rfl, (hrelays s hs).1, rfl⟩
  · rintro key v - ⟨j, link, hj, hlink, hwaits⟩
    exact ⟨j, link, hon j hj, hlink, hwaits⟩

/-- Nobody has said anything, and the hub has taken nothing but what was on closed links. -/
theorem Upheld.still (hu : Upheld routes members a) {hub : Hub} {host : Option Node} {heard : ι → Nat → Nat}
    (hw : ∃ greeted, (⟨hub, host, a.cluster.client, heard, a.cluster.read⟩ : Cluster ι).Wired routes greeted)
    (hout : hub.outbox = a.cluster.hub.outbox)
    (hold : ∀ key e, hub.tuples.get key = some e → a.cluster.hub.tuples.get key = some e)
    (hkeeps : ∀ key value, a.cluster.hub.tuples.get key = some (value, 0) → hub.tuples.get key = some (value, 0))
    (hheard : ∀ i link, a.cluster.heard i link ≤ heard i link)
    (hopen : ∀ i link, link ∈ (a.cluster.client i).links → heard i link = a.cluster.heard i link)
    (hidle : ∀ i link, a.online i = false → heard i link = a.cluster.heard i link) :
    Upheld routes members ⟨⟨hub, host, a.cluster.client, heard, a.cluster.read⟩, a.online, a.log⟩ := by
  refine ⟨hw, ⟨fun s hs => hu.spread.posted s (hout ▸ hs), hu.spread.cached, hu.spread.sent⟩,
    fun key value expiry hk => hu.lasting key value expiry (hold key _ hk), fun i hi => ?_, hu.keys,
    hu.kept.still hkeeps ?_ ?_⟩
  · exact ⟨fun link => (hidle i link hi).trans ((hu.idle i hi).1 link), (hu.idle i hi).2⟩
  · rintro key v ⟨i, link, hi, body, hbody, hpub⟩
    exact ⟨i, link, hi, body, (List.drop_subset_drop_left _ (hheard i link)) hbody, hpub⟩
  · rintro key v ⟨i, link, hi, hlink, body, hbody, hpub⟩
    refine ⟨i, link, hi, hlink, body, ?_, hpub⟩
    show body ∈ ((a.cluster.client i).spoken link).drop (heard i link)
    rw [hopen i link hlink]
    exact hbody

theorem Annals.news_of_eq {c : Cluster ι} (h : (c.client i).outbox = (a.cluster.client i).outbox) :
    a.news c i = [] := by
  rw [Annals.news, h, List.drop_length]
  rfl

variable [DecidableEq ι]

theorem up_update (c : Cluster ι) (i : ι) (d : Client) (read : ι → Nat → Nat) {sent : List LinkSend}
    (hheard : c.heard i link ≤ ((c.client i).spoken link).length) (hout : d.outbox = (c.client i).outbox ++ sent) :
    (⟨c.hub, c.host, Function.update c.client i d, c.heard, read⟩ : Cluster ι).up i link =
      c.up i link ++ (sent.filter fun s => s.link = link && s.sent).map LinkSend.body := by
  show ((Function.update c.client i d i).spoken link).drop (c.heard i link) = _
  rw [Function.update_self, Client.spoken_append hout, List.drop_append_of_le_length hheard]
  rfl

theorem up_update_of_ne (c : Cluster ι) (i : ι) (d : Client) (read : ι → Nat → Nat) {j : ι} (hj : j ≠ i) (link : Nat) :
    (⟨c.hub, c.host, Function.update c.client i d, c.heard, read⟩ : Cluster ι).up j link = c.up j link := by
  show ((Function.update c.client i d j).spoken link).drop (c.heard j link) = _
  rw [Function.update_of_ne hj]
  rfl

/-- A client has moved on: it caches the keys that it cached, and its links are the same, or one that is new and on
which it has announced itself. -/
theorem Upheld.call (hu : Upheld routes members a) (hi : a.online i = true) {d : Client} {read : ι → Nat → Nat}
    (hw : ∃ greeted, (⟨a.cluster.hub, a.cluster.host, Function.update a.cluster.client i d, a.cluster.heard,
      read⟩ : Cluster ι).Wired routes greeted)
    (hspread : Spread (fun _ _ ttl => ttl = 0) (⟨a.cluster.hub, a.cluster.host, Function.update a.cluster.client i d,
      a.cluster.heard, read⟩ : Cluster ι))
    (hrelays : (a.cluster.client i).Relays d)
    (hkeys : ∀ key e, (a.cluster.client i).tuples.get key = some e → ∃ e, d.tuples.get key = some e)
    (hlinks : d.links = (a.cluster.client i).links ∨
      d.tuples = (a.cluster.client i).tuples ∧ d.links = [(a.cluster.client i).nextLink] ∧
        d.Announced (a.cluster.client i).nextLink)
    (hcurrent : ∀ s ∈ a.news (⟨a.cluster.hub, a.cluster.host, Function.update a.cluster.client i d, a.cluster.heard,
      read⟩ : Cluster ι) i, members.Current a s) :
    Upheld routes members
      ⟨⟨a.cluster.hub, a.cluster.host, Function.update a.cluster.client i d, a.cluster.heard, read⟩, a.online,
        a.log ++ a.news ⟨a.cluster.hub, a.cluster.host, Function.update a.cluster.client i d, a.cluster.heard,
          read⟩ i⟩ := by
  obtain ⟨greeted, hwired⟩ := hu.wired
  obtain ⟨sent, hout, hsent⟩ := hrelays
  have hnews : a.news (⟨a.cluster.hub, a.cluster.host, Function.update a.cluster.client i d, a.cluster.heard,
      read⟩ : Cluster ι) i = sent.map fun s => (i, s) := by
    show ((Function.update a.cluster.client i d i).outbox.drop _).map _ = _
    rw [Function.update_self, hout, List.drop_left]
  rw [hnews] at hcurrent ⊢
  have hcached : ∀ s ∈ sent, ∀ key v, Zgs.published s.body = some (key, v) →
      ∃ e, (a.cluster.client i).tuples.get key = some e := by
    intro s hs key v hpub
    obtain ⟨-, v', ttl, hk, -⟩ := (hsent s hs).2 key v hpub
    exact ⟨_, hk⟩
  have hup := fun link => up_update a.cluster i d read (hwired.heard i link) hout
  have hoff : ∀ j, a.online j = false → j ≠ i := by
    rintro j hj rfl
    cases hi.symm.trans hj
  refine ⟨hw, hspread, hu.lasting, fun j hj => ?_, fun j s hs key value hpub => ?_,
    hu.speak rfl (fun s hs => hcurrent _ (List.mem_map_of_mem hs)) hsent ?_ ?_ ?_ rfl⟩
  · show (∀ link, a.cluster.heard j link = 0) ∧ ∀ s ∈ (Function.update a.cluster.client i d j).outbox,
      (Function.update a.cluster.client i d j).Relayed (Function.update a.cluster.client i d j) s
    rw [Function.update_of_ne (hoff j hj)]
    exact hu.idle j hj
  · show ∃ e, (Function.update a.cluster.client i d j).tuples.get key = some e
    replace hs : s ∈ (Function.update a.cluster.client i d j).outbox := hs
    by_cases hji : j = i
    · subst hji
      rw [Function.update_self] at hs ⊢
      rw [hout] at hs
      rcases List.mem_append.1 hs with hs | hs
      · obtain ⟨e, he⟩ := hu.keys j s hs key value hpub
        exact hkeys key e he
      · obtain ⟨e, he⟩ := hcached s hs key value hpub
        exact hkeys key e he
    · rw [Function.update_of_ne hji] at hs ⊢
      exact hu.keys j s hs key value hpub
  · rintro key v ⟨j, link, hj, body, hbody, hpub⟩
    by_cases hji : j = i
    · subst hji
      replace hbody := (hup link).subst hbody
      rcases List.mem_append.1 hbody with hbody | hbody
      · exact Or.inl ⟨j, link, hj, body, hbody, hpub⟩
      · obtain ⟨s, hs, rfl⟩ := List.mem_map.1 hbody
        exact Or.inr ⟨s, (List.mem_filter.1 hs).1, hpub⟩
    · exact Or.inl ⟨j, link, hj, body, (up_update_of_ne a.cluster i d read hji link).subst hbody, hpub⟩
  · intro s hs key v hpub
    refine ⟨i, s.link, hi, ?_, s.body, ?_, hpub⟩
    · show s.link ∈ (Function.update a.cluster.client i d i).links
      rw [Function.update_self]
      exact ((hsent s hs).2 key v hpub).1
    · refine (hup s.link).symm.subst (List.mem_append_right _ (List.mem_map_of_mem (List.mem_filter.2 ⟨hs, ?_⟩)))
      simp [(hsent s hs).1]
  · rintro key v hno ⟨j, link, hj, hlink, body, hbody, hpub⟩
    by_cases hji : j = i
    · subst hji
      rcases hlinks with hsame | ⟨htuples, hnew, hann⟩
      · refine ⟨j, link, hj, ?_, body, (hup link).symm.subst (List.mem_append_left _ hbody), hpub⟩
        show link ∈ (Function.update a.cluster.client j d j).links
        rw [Function.update_self, hsame]
        exact hlink
      · -- what was on the way over the closed link is cached, so it has been announced on the new one
        exfalso
        obtain ⟨s, hs, -, -, rfl⟩ := Client.mem_spoken.1 (List.mem_of_mem_drop hbody)
        obtain ⟨⟨w, ttl⟩, he⟩ := hu.keys j s hs key v hpub
        obtain ⟨body', hbody', henc⟩ := hann (.publish key w.raw ttl) (List.mem_cons_of_mem _ (List.mem_map.2
          ⟨(key, w, ttl), (Dict.get_eq_some_iff _).1 (htuples ▸ he), rfl⟩))
        rw [Client.spoken_append hout, (hwired.client j).spoken_eq_nil le_rfl, List.nil_append] at hbody'
        obtain ⟨t, ht, rfl⟩ := List.mem_map.1 hbody'
        exact hno t (List.mem_filter.1 ht).1 w.raw (Zgs.published_eq_some.2 ⟨ttl, Zgs.decode_encode henc⟩)
    · refine ⟨j, link, hj, ?_, body, (up_update_of_ne a.cluster i d read hji link).symm.subst hbody, hpub⟩
      show link ∈ (Function.update a.cluster.client i d j).links
      rw [Function.update_of_ne hji]
      exact hlink

/-- The hub takes the next frame of a client. -/
theorem Upheld.hear (hu : Upheld routes members a) (hi : a.online i = true) {env : Env} {body : Bytes}
    {rest : List Bytes} (hup : a.cluster.up i link = body :: rest) {hub : Hub}
    (hm : a.cluster.hub.handleMessage env [routes.id i link, body] = .ok hub) :
    Upheld routes members ⟨⟨hub, a.cluster.host, a.cluster.client, bump a.cluster.heard i link, a.cluster.read⟩,
      a.online, a.log⟩ := by
  obtain ⟨greeted, hwired⟩ := hu.wired
  obtain ⟨accepted, returned, hruns⟩ := hwired.runs
  have hmem : body ∈ (a.cluster.client i).spoken link := List.mem_of_mem_drop (hup ▸ List.mem_cons_self)
  have hfits := spoken_fits (hwired.client i) hmem (routes.id i link)
  have hzero : ∀ key value ttl, Hub.Carried [routes.id i link, body] key value ttl → ttl = 0 := by
    rintro key value ttl ⟨id, b, heq, hdec⟩
    cases heq
    obtain ⟨s, hs, -, -, rfl⟩ := Client.mem_spoken.1 hmem
    exact hu.spread.sent i s hs key value ttl hdec
  have hcases := Hub.message_learns hruns.sound hfits hm
  have hlasting : ∀ key value expiry, hub.tuples.get key = some (value, expiry) → expiry = 0 := by
    intro key value expiry hk
    rcases hcases with ⟨htuples, -⟩ | ⟨k, v, ttl, hcarried, htuples, -⟩
    · exact hu.lasting key value expiry (htuples ▸ hk)
    · rw [htuples, Dict.get_set] at hk
      split at hk
      · cases hk
        rw [hzero _ _ ttl hcarried]
        rfl
      · exact hu.lasting key value expiry hk
  have hleft : ∀ j l, (⟨hub, a.cluster.host, a.cluster.client, bump a.cluster.heard i link, a.cluster.read⟩ :
      Cluster ι).up j l = if j = i ∧ l = link then rest else a.cluster.up j l := by
    intro j l
    show ((a.cluster.client j).spoken l).drop (bump a.cluster.heard i link j l) = _
    rw [bump_apply]
    split
    · rename_i hjl
      obtain ⟨rfl, rfl⟩ := hjl
      rw [← List.drop_drop]
      exact congrArg (List.drop 1) hup
    · rfl
  refine ⟨hwired.hear hup hm, hu.spread.rehub (Hub.message_tells hruns.sound hub hm) ?_ _ _, hlasting, ?_, hu.keys,
    hu.kept.hear (fun key v => Zgs.published body = some (key, v)) ?_ ?_ ?_ ?_ ?_⟩
  · rintro key value ttl (hcarried | hstored)
    · exact hzero key value ttl hcarried
    · exact hstored.1
  · intro j hj
    obtain ⟨hheard, hrelays⟩ := hu.idle j hj
    refine ⟨fun l => ?_, hrelays⟩
    show bump a.cluster.heard i link j l = 0
    rw [bump_apply, if_neg]
    · exact hheard l
    · rintro ⟨rfl, -⟩
      cases hi.symm.trans hj
  · exact fun key v hpub => ⟨i, link, hi, body, hup ▸ List.mem_cons_self, hpub⟩
  · intro key v hpub
    obtain ⟨ttl, hdec⟩ := Zgs.published_eq_some.1 hpub
    obtain ⟨expiry, hk⟩ := Hub.message_stores hfits hm ⟨_, _, rfl, hdec⟩
    obtain rfl := hlasting key v expiry hk
    exact hk
  · intro key v hno hk
    show hub.tuples.get key = _
    rcases hcases with ⟨htuples, -⟩ | ⟨k, w, ttl, ⟨_, _, heq, hdec⟩, htuples, -⟩
    · rw [htuples]
      exact hk
    · cases heq
      rw [htuples, Dict.get_set, if_neg]
      · exact hk
      · rintro rfl
        exact hno w (Zgs.published_eq_some.2 ⟨ttl, hdec⟩)
  · rintro key v ⟨j, l, hj, b, hb, hpub⟩
    replace hb := (hleft j l).subst hb
    split at hb
    · rename_i hjl
      obtain ⟨rfl, rfl⟩ := hjl
      exact ⟨j, l, hj, b, hup ▸ List.mem_cons_of_mem _ hb, hpub⟩
    · exact ⟨j, l, hj, b, hb, hpub⟩
  · rintro key v ⟨j, l, hj, hl, b, hb, hpub⟩
    by_cases hjl : j = i ∧ l = link
    · obtain ⟨rfl, rfl⟩ := hjl
      rw [hup] at hb
      rcases List.mem_cons.1 hb with rfl | hb
      · exact Or.inr hpub
      · exact Or.inl ⟨j, l, hj, hl, b, (hleft j l).symm.subst ((if_pos ⟨rfl, rfl⟩).symm.subst hb), hpub⟩
    · exact Or.inl ⟨j, l, hj, hl, b, (hleft j l).symm.subst ((if_neg hjl).symm.subst hb), hpub⟩

/-- Every event keeps the hub up with the last words. -/
theorem Upheld.event (hu : Upheld routes members a) {env : GossipEnv} {event : Event ι} {c : Cluster ι}
    (hm : a.Permits (.event env event)) (hcurrent : ∀ s ∈ a.entries c event.client, members.Current a s)
    (hs : a.cluster.step routes env event = .ok c) :
    Upheld routes members ⟨c, a.online, a.log ++ a.entries c event.client⟩ := by
  obtain ⟨hsends, hnative, hon⟩ := hm
  obtain ⟨greeted, hwired⟩ := hu.wired
  have hw : ∃ greeted, c.Wired routes greeted := by
    refine hwired.step ?_ hs
    cases event with
    | stranger | publish | unpublish => cases hnative
    | _ => trivial
  have hnone : ∀ j, (c.client j).outbox = (a.cluster.client j).outbox → a.log ++ a.news c j = a.log := by
    intro j hj
    rw [Annals.news_of_eq hj, List.append_nil]
  cases event with
  | stranger | publish | unpublish => cases hnative
  | node i input =>
    obtain ⟨d, hd, hs⟩ := bind_eq_ok_iff.1 hs
    cases hs
    have hcalls := Client.calls_node (hwired.client i) d hd
    refine hu.call (hon i rfl) hw (hu.spread.call hcalls) (Client.relays_node hsends (hwired.client i) d hd)
      (fun key e hk => ⟨e, hcalls.tuples ▸ hk⟩) ?_ hcurrent
    rcases hcalls.links with ⟨hlinks, -⟩ | ⟨hlinks, -, hann⟩
    · exact Or.inl hlinks
    · exact Or.inr ⟨hcalls.tuples, hlinks, hann hsends⟩
  | host input =>
    simp only [Event.client, Annals.entries, List.append_nil]
    simp only [Cluster.step] at hs
    split at hs
    · cases hs
      exact hu
    · obtain ⟨n, -, hs⟩ := bind_eq_ok_iff.1 hs
      cases hs
      exact hu.still hw rfl (fun _ _ h => h) (fun _ _ h => h) (fun _ _ => le_rfl) (fun _ _ _ => rfl) fun _ _ _ => rfl
  | hear i link =>
    simp only [Cluster.step] at hs
    cases hup : a.cluster.up i link with
    | nil =>
      simp only [hup] at hs
      cases hs
      simp only [Event.client, Annals.entries, hnone i rfl]
      exact hu
    | cons body rest =>
      simp only [hup] at hs
      obtain ⟨hub, hm, hs⟩ := bind_eq_ok_iff.1 hs
      cases hs
      simp only [Event.client, Annals.entries, hnone i rfl]
      exact hu.hear (hon i rfl) hup hm
  | take i link =>
    simp only [Cluster.step] at hs
    cases hdown : a.cluster.down routes i link with
    | nil =>
      simp only [hdown] at hs
      cases hs
      simp only [Event.client, Annals.entries, hnone i rfl]
      exact hu
    | cons s rest =>
      simp only [hdown] at hs
      split at hs
      · rename_i hlink
        obtain ⟨d, hd, hs⟩ := bind_eq_ok_iff.1 hs
        cases hs
        obtain ⟨only, hsingle, honly⟩ := (hwired.client i).single
        obtain rfl : link = only := by simpa [hsingle] using hlink
        have hmem : s ∈ a.cluster.hub.outbox :=
          (Hub.mem_posted.1 (List.mem_of_mem_drop (hdown ▸ List.mem_cons_self))).1
        obtain ⟨-, hlinks, -⟩ := (hwired.client i).receive honly hd
        refine hu.call (hon i rfl) hw (hu.spread.take honly hmem hd _) (Client.relays_receive hsends hlink d hd)
          (fun key e hk => ?_) (Or.inl hlinks) hcurrent
        rcases Client.receive_shape honly hd with ⟨k, v, t, n, -, ⟨-, -, rfl⟩ | ⟨-, rfl⟩⟩ | ⟨-, hcalls, -⟩
        · show ∃ e, ((a.cluster.client i).tuples.set k (.bytes v, t)).get key = some e
          rw [Dict.get_set]
          split
          · exact ⟨_, rfl⟩
          · exact ⟨e, hk⟩
        · exact ⟨e, hk⟩
        · exact ⟨e, hcalls.tuples ▸ hk⟩
      · cases hs
        simp only [Event.client, Annals.entries, hnone i rfl]
        exact hu
  | lose i link =>
    simp only [Cluster.step] at hs
    split at hs
    · cases hs
      simp only [Event.client, Annals.entries, hnone i rfl]
      exact hu
    · rename_i hclosed
      cases hs
      simp only [Event.client, Annals.entries, hnone i rfl]
      refine hu.still hw rfl (fun _ _ h => h) (fun _ _ h => h) (fun j l => ?_) (fun j l hl => ?_) fun j l hj => ?_
      · rw [bump_apply]
        split
        · rename_i hjl
          obtain ⟨rfl, rfl⟩ := hjl
          exact Nat.le_succ _
        · exact le_rfl
      · rw [bump_apply, if_neg]
        rintro ⟨rfl, rfl⟩
        exact hclosed (Or.inl hl)
      · rw [bump_apply, if_neg]
        rintro ⟨rfl, -⟩
        cases (hon j rfl).symm.trans hj
  | reap =>
    cases hs
    simp only [Event.client, Annals.entries, List.append_nil]
    exact hu.still hw rfl (fun key e hk => Dict.get_of_get_foldl_pop hk) (fun key v hk => Hub.reap_get hk)
      (fun _ _ => le_rfl) (fun _ _ _ => rfl) fun _ _ _ => rfl
  | collect =>
    simp only [Event.client, Annals.entries, List.append_nil]
    simp only [Cluster.step, Hub.deliveries] at hs
    split at hs
    · cases hs
      exact hu.still hw rfl (fun _ _ h => h) (fun _ _ h => h) (fun _ _ => le_rfl) (fun _ _ _ => rfl) fun _ _ _ => rfl
    · obtain ⟨n, -, hs⟩ := bind_eq_ok_iff.1 hs
      cases hs
      exact hu.still hw rfl (fun _ _ h => h) (fun _ _ h => h) (fun _ _ => le_rfl) (fun _ _ _ => rfl) fun _ _ _ => rfl

/-- A node, another one, and the first one once more, which was started again. -/
inductive Party where
  | first
  | other
  | again
  deriving DecidableEq

instance {P : Party → Prop} [DecidablePred P] : Decidable (∀ i, P i) :=
  decidable_of_iff (P .first ∧ P .other ∧ P .again)
    ⟨fun h i => by cases i; exacts [h.1, h.2.1, h.2.2], fun h => ⟨h _, h _, h _⟩⟩

/-- A client connects, or an event happens at a time at which nothing fails. -/
inductive Scene where
  | enter (i : Party)
  | play (t : Int) (event : Event Party)

def Scene.move : Scene → Move Party
  | enter i => .connect i
  | play t event => .event (GossipEnv.calm t) event

end Cluster

end Zre
