import Zre.Proofs.Wires

/-!
# Proofs: the keys of the connections

With a key pair of its own a node opens no socket without `CURVE_SERVERKEY`, and the key is one that an
event gave for the peer or for its host and port. The key that the application gives for a host and port is
used there as long as no event gives another one for them, or for the id of a new peer that is announced
there.
-/

namespace Zre

open Fallible

namespace Node

section Lines

variable {env : Env} {w : Tidings} {n n' : Node}

theorem serverKeyFor_some {addr : Str} {port : Int} {rhex : Option Str} {key : Bytes}
    (h : n.serverKeyFor addr port rhex = some key) :
    (∃ k, rhex = some k ∧ n.peerServerKeys.get k = some key) ∨
      n.peerServerKeys.get (hostPort addr port) = some key := by
  unfold serverKeyFor at h
  split at h
  · rename_i key' hk
    cases h
    obtain ⟨k, hr, hget⟩ := Option.bind_eq_some_iff.1 hk
    exact Or.inl ⟨k, hr, hget⟩
  · exact Or.inr h

/-- A node with a key pair dials with it, and with a key that it knows. -/
theorem Secured.curve {addr : Str} {port : Int} {rhex : Option Str} {pub sec : Bytes}
    (hs : n.Secured addr port rhex) (hpub : n.cfg.curvePublic = some pub)
    (hsec : n.cfg.curveSecret = some sec) :
    ∃ key, n.serverKeyFor addr port rhex = some key ∧ n.dialCurve addr port rhex = some (key, pub, sec) := by
  have hsome := hs (by rw [hsec]; rfl)
  unfold dialCurve at hsome ⊢
  rw [hsec, hpub] at hsome ⊢
  cases hkey : n.serverKeyFor addr port rhex with
  | none =>
    rw [hkey] at hsome
    cases hsome
  | some key => exact ⟨key, rfl, rfl⟩

/-- A socket is opened by a dial to which the event invites. -/
theorem Line.opened (hw : Wires n) (hf : Filed n) (h : Line env w n n') {d : Dealer} (hd : n'.Opened d) :
    n.Opened d ∨ ∃ rhex addr port, w.dials rhex addr port ∧ n.Secured addr port rhex ∧
      d = n.lineTo addr port rhex ∧ ∀ k, rhex = some k →
        ((n'.obj d.sock).uuidHex = k ∧ ∀ j, n'.pending.get j ≠ some d.sock) ∧
          ∀ key, w.teaches k key → n.peerServerKeys.get k = some key := by
  have hset : ∀ r {p : Peer}, p.dealer = (n.obj r).dealer ∨ p.dealer = none →
      ∀ s, ((n.setObj r p).obj s).dealer = (n.obj s).dealer ∨ ((n.setObj r p).obj s).dealer = none := by
    intro r p hp s
    rw [setObj_obj]
    split
    · rename_i hs
      rw [hs]
      exact hp
    · exact Or.inl rfl
  -- the socket of a new object is the one that was dialled
  have hnew : ∀ {m : Node} {p : Peer}, m.outbox = n.outbox →
      (∀ s, m.obj s = if s = n.nextRef then p else n.obj s) → m.Opened d → n.Opened d ∨ p.dealer = some d := by
    intro m p ho hobj hm
    rcases hm with ⟨s, hs⟩ | hm
    · rw [hobj] at hs
      split at hs
      · exact Or.inr hs
      · exact Or.inl (Or.inl ⟨s, hs⟩)
    · rw [ho] at hm
      exact Or.inl (Or.inr hm)
  cases h with
  | idle h =>
    have hout : n'.outbox = n.outbox := by rw [h.rest]
    exact Or.inl (opened_sub hout (fun s => Or.inl (h.obj s).dealer) hd)
  | learn h => exact Or.inl hd
  | hail k r p hk hp => exact Or.inl (opened_sub (by rfl) (hset r (Or.inl hp.dealer)) hd)
  | refresh k r hk hh =>
    refine Or.inl (opened_sub (by rfl) (hset r ?_) hd)
    exact Or.inl rfl
  | hand r h cmd hc hdealer hs => exact Or.inl (opened_hand hdealer hd)
  | waste uuidHex addr port =>
    refine (hnew (by rfl) (allocated_obj n _) hd).imp id fun hnone => ?_
    cases hnone
  | greet k addr port p h hk hh hdial hkeys hs hp hdealer hmsg =>
    have hpd : p.dealer = some (n.lineTo addr port (some k)) := hp.dealer
    have hd' : (n.filed k p).Opened d := by
      refine opened_hand ?_ hd
      rw [filed_obj, if_pos rfl, hdealer]
    refine (hnew (by rfl) (filed_obj n k p) hd').imp id fun hline => ?_
    rw [hpd] at hline
    have hsock : d.sock = n.nextRef := by
      rw [← Option.some.inj hline]
      exact hw.count.symm
    refine ⟨some k, addr, port, hdial, hs, (Option.some.inj hline).symm, ?_⟩
    rintro _ ⟨⟩
    rw [hsock, hand_congr Peer.uuidHex Peer.handed_uuidHex, filed_obj, if_pos rfl, hand_pending, filed_pending]
    exact ⟨⟨hp.uuidHex, fun j hj => absurd (hf.alloc j _ (Or.inr hj)) (Nat.lt_irrefl _)⟩, hkeys⟩
  | call k addr port h hk hdial hs hdealer hmsg =>
    have hd' : (n.awaited k (n.dialled env k addr port none)).Opened d := by
      refine opened_hand ?_ hd
      rw [awaited_obj, if_pos rfl, hdealer]
    refine (hnew (by rfl) (awaited_obj n k _) hd').imp id fun hline => ?_
    rw [dialled_dealer] at hline
    exact ⟨none, addr, port, hdial, hs, (Option.some.inj hline).symm, by simp⟩
  | adopt k r rhex hp hk hh =>
    refine Or.inl (opened_sub (by rfl) (hset r ?_) hd)
    exact Or.inl rfl
  | forget k r hk => exact Or.inl (opened_sub (by rfl) (hset r (Or.inr rfl)) hd)
  | drop k r hp => exact Or.inl (opened_sub (by rfl) (hset r (Or.inr rfl)) hd)

/-- Only a pending dial changes its id, and nothing that was dialled before becomes pending. -/
theorem Line.owner (h : Line env w n n') {s : Ref} (hs : s < n.nextRef) :
    ((n'.obj s).uuidHex = (n.obj s).uuidHex ∨ ∃ k, n.pending.get k = some s) ∧
      ∀ k, n'.pending.get k = some s → ∃ j, n.pending.get j = some s := by
  have hset : ∀ r {p : Peer}, p.uuidHex = (n.obj r).uuidHex →
      ((n.setObj r p).obj s).uuidHex = (n.obj s).uuidHex := fun r _ h => setObj_congr Peer.uuidHex n r h s
  cases h with
  | idle h =>
    have hpending : n'.pending = n.pending := by rw [h.rest]
    exact ⟨Or.inl (h.obj s).uuidHex, fun k hk => ⟨k, hpending ▸ hk⟩⟩
  | learn h => exact ⟨Or.inl rfl, fun k hk => ⟨k, hk⟩⟩
  | hail k r p hk hp => exact ⟨Or.inl (hset r hp.uuidHex), fun k hk => ⟨k, hk⟩⟩
  | refresh k r hk hh => exact ⟨Or.inl (hset r rfl), fun k hk => ⟨k, hk⟩⟩
  | hand r h cmd hc hd hmsg =>
    exact ⟨Or.inl (hset r (Peer.handed_uuidHex _ _)), fun k hk => ⟨k, hk⟩⟩
  | waste uuidHex addr port =>
    refine ⟨Or.inl ?_, fun k hk => ⟨k, hk⟩⟩
    rw [allocated_obj, if_neg (Nat.ne_of_lt hs)]
  | greet k addr port p h hk hh hdial hkeys hsec hp hdealer hmsg =>
    refine ⟨Or.inl ?_, fun j hj => ⟨j, ?_⟩⟩
    · rw [hand_congr Peer.uuidHex Peer.handed_uuidHex, filed_obj, if_neg (Nat.ne_of_lt hs)]
    · rwa [hand_pending, filed_pending] at hj
  | call k addr port h hk hdial hsec hdealer hmsg =>
    refine ⟨Or.inl ?_, fun j hj => ⟨j, ?_⟩⟩
    · rw [hand_congr Peer.uuidHex Peer.handed_uuidHex, awaited_obj, if_neg (Nat.ne_of_lt hs)]
    · rw [hand_pending, awaited_pending, Dict.get_set] at hj
      split at hj
      · cases hj
        exact absurd hs (Nat.lt_irrefl _)
      · exact hj
  | adopt k r rhex hp hk hh =>
    refine ⟨?_, fun j hj => ⟨j, ?_⟩⟩
    · by_cases hsr : s = r
      · exact Or.inr ⟨k, hsr ▸ hp⟩
      · left
        show ((n.setObj r _).obj s).uuidHex = _
        rw [setObj_obj, if_neg hsr]
    · have hj' : (n.pending.pop k).get j = some s := hj
      rw [Dict.get_pop] at hj'
      split at hj'
      · cases hj'
      · exact hj'
  | forget k r hk => exact ⟨Or.inl (hset r rfl), fun j hj => ⟨j, hj⟩⟩
  | drop k r hp =>
    refine ⟨Or.inl (hset r rfl), fun j hj => ⟨j, ?_⟩⟩
    have hj' : (n.pending.pop k).get j = some s := hj
    rw [Dict.get_pop] at hj'
    split at hj'
    · cases hj'
    · exact hj'

end Lines

/-! ## No plaintext -/

/-- The runs of a node, each with its events and the states before them. -/
inductive Past (cfg : Config) : List (Node × Input) → Node → Prop where
  | init : Past cfg [] (Node.init cfg)
  | step {l : List (Node × Input)} {n n' : Node} (env : Env) (input : Input) (h : Past cfg l n)
      (hs : n.step env input = .ok n') : Past cfg (l ++ [(n, input)]) n'

theorem Past.reachable {cfg : Config} {l : List (Node × Input)} {n : Node} (h : Past cfg l n) :
    n.Reachable := by
  induction h with
  | init => exact .init cfg
  | step env input _ hs ih => exact .step env input ih hs

/-- An event of the run gave the key for this id, or for this host and port. -/
def Learned (l : List (Node × Input)) (x : Str) (key : Bytes) : Prop := ∃ e ∈ l, e.1.Teaches e.2 x key

theorem Learned.append {l l' : List (Node × Input)} {x : Str} {key : Bytes} (h : Learned l x key) :
    Learned (l ++ l') x key := by
  obtain ⟨e, he, ht⟩ := h
  exact ⟨e, List.mem_append_left _ he, ht⟩

/-- The socket encrypts with the node's own key pair for a 32-byte key that was learned for the id `id` or
for the host and port of the socket. -/
def Curved (l : List (Node × Input)) (pub sec : Bytes) (d : Dealer) (id : Str) : Prop :=
  ∃ key, d.curve = some (key, pub, sec) ∧ key.length = 32 ∧
    (Learned l (hostPort d.addr d.port) key ∨ Learned l id key)

/-- Every key is one that `L` allows, and every socket encrypts with one. -/
structure Encrypted (L : Str → Bytes → Prop) (pub sec : Bytes) (n : Node) : Prop where
  keys : ∀ x key, n.peerServerKeys.get x = some key → L x key
  lines : ∀ d, n.Opened d → ∃ key, d.curve = some (key, pub, sec) ∧
    (L (hostPort d.addr d.port) key ∨
      L (n.obj d.sock).uuidHex key ∧ ∀ k, n.pending.get k ≠ some d.sock)

theorem Encrypted.mono {L L' : Str → Bytes → Prop} {pub sec : Bytes} {n : Node}
    (h : Encrypted L pub sec n) (hL : ∀ x key, L x key → L' x key) : Encrypted L' pub sec n := by
  refine ⟨fun x key hx => hL x key (h.keys x key hx), fun d hd => ?_⟩
  obtain ⟨key, hc, hl⟩ := h.lines d hd
  exact ⟨key, hc, hl.imp (hL _ key) fun hl => ⟨hL _ key hl.1, hl.2⟩⟩

theorem Encrypted.line {env : Env} {w : Tidings} {L : Str → Bytes → Prop} {pub sec : Bytes} {n n' : Node}
    (hw : Wires n) (hf : Filed n) (hpub : n.cfg.curvePublic = some pub) (hsec : n.cfg.curveSecret = some sec)
    (hL : ∀ x key, w.teaches x key → L x key) (h : Line env w n n') (he : Encrypted L pub sec n) :
    Encrypted L pub sec n' := by
  refine ⟨fun x key hx => ?_, fun d hd => ?_⟩
  · rcases h.lines.keys x with hk | ⟨key', hk, ht⟩
    · exact he.keys x key (hk ▸ hx)
    · rw [hk] at hx
      cases hx
      exact hL x key ht
  · rcases h.opened hw hf hd with hold | ⟨rhex, addr, port, -, hs, rfl, hid⟩
    · obtain ⟨key, hc, hl⟩ := he.lines d hold
      obtain ⟨howner, hpending⟩ := h.owner (hw.opened d hold).1
      refine ⟨key, hc, hl.imp id ?_⟩
      rintro ⟨hl, hno⟩
      refine ⟨?_, fun k hk => ?_⟩
      · rcases howner with hu | ⟨k, hk⟩
        · rw [hu]
          exact hl
        · exact absurd hk (hno k)
      · obtain ⟨j, hj⟩ := hpending k hk
        exact hno j hj
    · obtain ⟨key, hkey, hcurve⟩ := hs.curve hpub hsec
      refine ⟨key, hcurve, ?_⟩
      rcases serverKeyFor_some hkey with ⟨k, hr, hget⟩ | hget
      · obtain ⟨⟨hu, hno⟩, -⟩ := hid k hr
        refine Or.inr ⟨?_, hno⟩
        rw [hu]
        exact he.keys k key hget
      · exact Or.inl (he.keys _ key hget)

theorem Past.cfg {cfg : Config} {l : List (Node × Input)} {n : Node} (h : Past cfg l n) :
    n.cfg = cfg ∧ ∀ e ∈ l, e.1.cfg = cfg := by
  induction h with
  | init => exact ⟨rfl, by simp⟩
  | @step l m m' env input hm hs ih =>
    refine ⟨((lines_step env hm.reachable.tables input m' hs).cfg).trans ih.1, fun e he => ?_⟩
    rcases List.mem_append.1 he with he | he
    · exact ih.2 e he
    · rw [List.mem_singleton.1 he]
      exact ih.1

theorem Past.keyed {cfg : Config} {pub sec : Bytes} (hpub : cfg.curvePublic = some pub)
    (hsec : cfg.curveSecret = some sec) {l : List (Node × Input)} {n : Node} (h : Past cfg l n) :
    Encrypted (Learned l) pub sec n := by
  induction h with
  | init =>
    refine ⟨by simp [Node.init, Dict.get_empty], ?_⟩
    rintro d (⟨r, hr⟩ | ⟨x, hx, -⟩)
    · cases hr
    · cases hx
  | @step l m m' env input hm hs ih =>
    have hcfg := hm.cfg.1
    have hrun := (lines_step env hm.reachable.tables input m' hs).invariant
      (I := fun m' => (Filed m' ∧ Wires m') ∧ m'.cfg = cfg ∧ Encrypted (Learned (l ++ [(m, input)])) pub sec m')
    refine (hrun (fun {a b} hl hi => ?_) ?_).2.2
    · obtain ⟨⟨hf, hw⟩, hc, he⟩ := hi
      refine ⟨⟨hf.line hl, hw.line hf hl⟩, hl.cfg.trans hc, he.line hw hf (hc ▸ hpub) (hc ▸ hsec) ?_ hl⟩
      exact fun x key ht => ⟨(m, input), by simp, ht⟩
    · exact ⟨⟨Filed.of_tables hm.reachable.tables, hm.reachable.wires⟩, hcfg, ih.mono fun _ _ => Learned.append⟩

/-- `z85.decode` of 40 characters yields 32 bytes. -/
def DecodesKeys (rt : Runtime) : Prop :=
  ∀ value key, value.length = 40 → rt.z85Decode value = some key → key.length = 32

theorem curveKeyRaw_length {rt : Runtime} (hrt : DecodesKeys rt) {value key : Bytes}
    (h : curveKeyRaw rt value = some key) : key.length = 32 := by
  unfold curveKeyRaw at h
  split at h
  · cases h
    assumption
  · split at h
    · rename_i hlen
      exact hrt value key hlen h
    · cases h

theorem helloKey_length {rt : Runtime} (hrt : DecodesKeys rt) {h : HelloFields} {key : Bytes}
    (hk : helloKey rt h = some key) : key.length = 32 := by
  unfold helloKey at hk
  rcases Option.or_eq_some_iff.1 hk with hsuffix | ⟨-, hheader⟩
  · split at hsuffix
    · exact curveKeyRaw_length hrt hsuffix
    · cases hsuffix
  · obtain ⟨value, -, hraw⟩ := Option.bind_eq_some_iff.1 hheader
    exact curveKeyRaw_length hrt hraw

theorem beaconKey_length {n : Node} {data uuid key : Bytes} {port : ℕ} (hh : n.Hears data uuid port)
    (hk : n.beaconKey data = some key) : key.length = 32 := by
  unfold beaconKey at hk
  split at hk
  · rename_i hv
    cases hk
    have hsize := hh.2.2.2.1
    rw [hv] at hsize
    have hlen : data.length = 54 := (Option.some.inj hsize).symm
    simp [slice, hlen]
  · cases hk

/-- Every key that is learned has 32 bytes. -/
theorem Teaches.length {n : Node} (hrt : DecodesKeys n.cfg.rt) {input : Input} {x : Str} {key : Bytes}
    (h : n.Teaches input x key) : key.length = 32 := by
  cases h with
  | hello hc hf hnew hown hk => exact helloKey_length hrt hk
  | beacon hh hown hk hx => exact beaconKey_length hh hk
  | gossip hbar hown hk => exact curveKeyRaw_length hrt hk
  | pin hk => exact curveKeyRaw_length hrt hk

/-- A node with a key pair opens every socket with it, and every entry of its tables has had such a
socket. -/
theorem Past.encrypted {cfg : Config} {pub sec : Bytes} (hpub : cfg.curvePublic = some pub)
    (hsec : cfg.curveSecret = some sec) (hrt : DecodesKeys cfg.rt) {l : List (Node × Input)} {n : Node}
    (h : Past cfg l n) :
    (∀ d, n.Opened d → Curved l pub sec d (n.obj d.sock).uuidHex) ∧
    (∀ k r, n.peers.get k = some r → ∃ d, n.Opened d ∧ d.sock = r ∧ Curved l pub sec d k) ∧
    ∀ k r, n.pending.get k = some r → ∃ d, n.Opened d ∧ d.sock = r ∧
      Curved l pub sec d (n.obj r).uuidHex := by
  have hw := h.reachable.wires
  have hcurved : ∀ d, n.Opened d → Curved l pub sec d (n.obj d.sock).uuidHex := by
    intro d hd
    obtain ⟨key, hc, hl⟩ := (h.keyed hpub hsec).lines d hd
    have hlearned : Learned l (hostPort d.addr d.port) key ∨ Learned l (n.obj d.sock).uuidHex key :=
      hl.imp id And.left
    refine ⟨key, hc, ?_, hlearned⟩
    obtain ⟨e, he, ht⟩ : ∃ e ∈ l, ∃ x, e.1.Teaches e.2 x key := by
      rcases hlearned with ⟨e, he, ht⟩ | ⟨e, he, ht⟩ <;> exact ⟨e, he, _, ht⟩
    obtain ⟨x, ht⟩ := ht
    exact ht.length (by rw [h.cfg.2 e he]; exact hrt)
  have hsocket : ∀ k r, n.peers.get k = some r ∨ n.pending.get k = some r →
      ∃ d, n.Opened d ∧ d.sock = r := by
    intro k r hk
    rcases hw.entry k r hk with hd | ⟨x, hx, hs, -⟩
    · obtain ⟨d, hd⟩ := Option.ne_none_iff_exists'.1 hd
      exact ⟨d, Or.inl ⟨r, hd⟩, hw.own r d hd⟩
    · exact ⟨x.dealer, Or.inr ⟨x, hx, rfl⟩, hs⟩
  refine ⟨hcurved, fun k r hk => ?_, fun k r hk => ?_⟩
  · obtain ⟨d, hd, hs⟩ := hsocket k r (Or.inl hk)
    have hkey : (n.obj d.sock).uuidHex = k := by
      rw [hs]
      exact h.reachable.tables.key k r hk
    exact ⟨d, hd, hs, hkey ▸ hcurved d hd⟩
  · obtain ⟨d, hd, hs⟩ := hsocket k r (Or.inr hk)
    refine ⟨d, hd, hs, ?_⟩
    rw [← hs]
    exact hcurved d hd

/-! ## The key of the application -/

/-- From the first state to the second by events that satisfy `P`. -/
def Follows (P : Node → Input → Prop) : Node → Node → Prop :=
  Relation.ReflTransGen fun n n' => ∃ env input, P n input ∧ n.step env input = .ok n'

/-- The event gives no other key for this host and port, and announces no new peer there for whose id
another key is known. -/
structure KeepsPin (host : Str) (port : Int) (key : Bytes) (n : Node) (input : Input) : Prop where
  pin : ∀ other, n.Teaches input (hostPort host port) other → other = key
  announced : ∀ k, n.Announces (.input input) k host port → n.peers.get k = none →
    n.pendingMatch host port k = none →
    ∀ other, n.Teaches input k other ∨
      (n.peerServerKeys.get k = some other ∧ ∀ taught, ¬ n.Teaches input k taught) → other = key

/-- The sockets to this host and port that were opened since `s` encrypt for `key`. -/
def Holds (host : Str) (port : Int) (s : ℕ) (curve : Bytes × Bytes × Bytes) (n : Node) : Prop :=
  ∀ d, n.Opened d → s ≤ d.sock → d.addr = host → d.port = port → d.curve = some curve

section Pin

variable {host : Str} {port : Int} {key pub sec : Bytes} {s : ℕ} {n n' : Node}

theorem Holds.line {env : Env} {w : Tidings} (hw : Wires n) (hf : Filed n)
    (hpub : n.cfg.curvePublic = some pub) (hsec : n.cfg.curveSecret = some sec)
    (hpin : n.peerServerKeys.get (hostPort host port) = some key)
    (hdial : ∀ k, w.dials (some k) host port → (∀ taught, w.teaches k taught →
      n.peerServerKeys.get k = some taught) → ∀ other, n.peerServerKeys.get k = some other → other = key)
    (h : Line env w n n') (hh : n.Holds host port s (key, pub, sec)) :
    n'.Holds host port s (key, pub, sec) := by
  intro d hd hs haddr hport
  rcases h.opened hw hf hd with hold | ⟨rhex, addr, port', hdials, hsecured, rfl, hid⟩
  · exact hh d hold hs haddr hport
  · obtain rfl : addr = host := haddr
    obtain rfl : port' = port := hport
    obtain ⟨found, hfound, hcurve⟩ := hsecured.curve hpub hsec
    have hsame : found = key := by
      rcases serverKeyFor_some hfound with ⟨k, rfl, hget⟩ | hget
      · exact hdial k hdials (hid k rfl).2 found hget
      · exact Option.some.inj (hget.symm.trans hpin)
    subst hsame
    exact hcurve

theorem KeepsPin.step {env : Env} {input : Input} (hn : n.Reachable)
    (hpub : n.cfg.curvePublic = some pub) (hsec : n.cfg.curveSecret = some sec)
    (hk : n.KeepsPin host port key input) (hs : n.step env input = .ok n')
    (hpin : n.peerServerKeys.get (hostPort host port) = some key)
    (hh : n.Holds host port s (key, pub, sec)) :
    n'.peerServerKeys.get (hostPort host port) = some key ∧ n'.Holds host port s (key, pub, sec) := by
  have hlines := lines_step env hn.tables input n' hs
  have hpinned : ∀ {m}, Lines env (n.tidings input) n m →
      m.peerServerKeys.get (hostPort host port) = some key := by
    intro m hm
    rcases hm.keys (hostPort host port) with h | ⟨other, h, ht⟩
    · rw [h, hpin]
    · rw [h, hk.pin other ht]
  refine ⟨hpinned hlines, ?_⟩
  have hrun := hlines.invariant (I := fun m => Lines env (n.tidings input) n m ∧ (Filed m ∧ Wires m) ∧
    m.Holds host port s (key, pub, sec))
  refine (hrun (fun {a b} hl hi => ?_) ?_).2.2
  · obtain ⟨hm, ⟨hf, hw⟩, hold⟩ := hi
    refine ⟨hm.trans hl.lines, ⟨hf.line hl, hw.line hf hl⟩, hold.line hw hf (hm.cfg ▸ hpub) (hm.cfg ▸ hsec)
      (hpinned hm) (fun k hd hcurrent other hget => ?_) hl⟩
    cases hd with
    | announced ha hknown hfree =>
      refine hk.announced k ha hknown hfree other ?_
      by_cases ht : ∃ taught, n.Teaches input k taught
      · obtain ⟨taught, ht⟩ := ht
        rw [hcurrent taught ht] at hget
        cases hget
        exact Or.inl ht
      · have hnone : ∀ taught, ¬ n.Teaches input k taught := fun taught h => ht ⟨taught, h⟩
        rcases hm.keys k with h | ⟨other', -, h⟩
        · exact Or.inr ⟨h ▸ hget, hnone⟩
        · exact absurd h (hnone other')
  · exact ⟨Lines.refl n, ⟨Filed.of_tables hn.tables, hn.wires⟩, hh⟩

theorem Follows.holds {m : Node} (h : Follows (KeepsPin host port key) n m) (hn : n.Reachable)
    (hpub : n.cfg.curvePublic = some pub) (hsec : n.cfg.curveSecret = some sec)
    (hpin : n.peerServerKeys.get (hostPort host port) = some key)
    (hh : n.Holds host port s (key, pub, sec)) : m.Holds host port s (key, pub, sec) := by
  suffices hall : m.Reachable ∧ m.cfg = n.cfg ∧
      m.peerServerKeys.get (hostPort host port) = some key ∧ m.Holds host port s (key, pub, sec) from
    hall.2.2.2
  induction h with
  | refl => exact ⟨hn, rfl, hpin, hh⟩
  | tail _ hstep ih =>
    obtain ⟨env, input, hk, hs⟩ := hstep
    obtain ⟨hr, hcfg, hp, hold⟩ := ih
    have hnext := hk.step hr (hcfg ▸ hpub) (hcfg ▸ hsec) hs hp hold
    exact ⟨.step env input hr hs, (lines_step env hr.tables input _ hs).cfg.trans hcfg, hnext⟩

end Pin

/-- The key that `connect_peer` was given is the key of every socket that the node opens to its host and
port from then on, in every run whose events keep it; and so any two such runs dial with the same key. -/
theorem Reachable.pinned {n : Node} (hn : n.Reachable) {host : Str} {port : Int}
    {publicKey key pub sec : Bytes} (hpub : n.cfg.curvePublic = some pub)
    (hsec : n.cfg.curveSecret = some sec) (hkey : curveKeyRaw n.cfg.rt publicKey = some key) {m m' : Node}
    (hm : Follows (KeepsPin host port key) (n.pinKey host port publicKey) m)
    (hm' : Follows (KeepsPin host port key) (n.pinKey host port publicKey) m') :
    m.Holds host port n.sockets (key, pub, sec) ∧
    ∀ d d', m.Opened d → m'.Opened d' → n.sockets ≤ d.sock → n.sockets ≤ d'.sock →
      d.addr = host ∧ d.port = port → d'.addr = host ∧ d'.port = port → d.curve = d'.curve := by
  have hstep : n.step (Env.calm 0) (.pinKey host port publicKey) = .ok (n.pinKey host port publicKey) := rfl
  have hreach : (n.pinKey host port publicKey).Reachable := .step _ _ hn hstep
  have hpinned : n.pinKey host port publicKey =
      { n with peerServerKeys := n.peerServerKeys.set (hostPort host port) key } := by
    unfold pinKey learnKey
    rw [hkey]
  have hpin : (n.pinKey host port publicKey).peerServerKeys.get (hostPort host port) = some key := by
    rw [hpinned]
    exact Dict.get_set_self _ _ _
  have hcfg : (n.pinKey host port publicKey).cfg = n.cfg := by rw [hpinned]
  have hsockets : (n.pinKey host port publicKey).sockets = n.sockets := by rw [hpinned]
  -- no socket has been opened since then
  have hstart : (n.pinKey host port publicKey).Holds host port n.sockets (key, pub, sec) := by
    intro d hd hs
    have hlt := (hreach.wires.opened d hd).1
    rw [hreach.wires.count, hsockets] at hlt
    exact absurd hlt (Nat.not_lt.2 hs)
  have hh := hm.holds hreach (hcfg ▸ hpub) (hcfg ▸ hsec) hpin hstart
  have hh' := hm'.holds hreach (hcfg ▸ hpub) (hcfg ▸ hsec) hpin hstart
  refine ⟨hh, ?_⟩
  rintro d d' hd hd' hs hs' ⟨ha, hp⟩ ⟨ha', hp'⟩
  rw [hh d hd hs ha hp, hh' d' hd' hs' ha' hp']

/-! ## Two runs with a key pair -/

/-- A node with a key pair. -/
def sampleSecure : Config :=
  { sampleA.cfg with
    beaconVersion := beaconVersionV3
    curvePublic := some (List.replicate 32 1)
    curveSecret := some (List.replicate 32 2) }

/-- The key `33…3` is given for `10.0.0.2:4002`. -/
def samplePinned : Node := (Node.init sampleSecure).pinKey "10.0.0.2".toList 4002 (List.replicate 32 3)

/-- Then that address is dialled. -/
def sampleDialled : Node :=
  samplePinned.after (Env.calm 0) (.command (.connect "10.0.0.2".toList 4002))

theorem encrypted_dialled : sampleDialled.pending.get (pendingKey "10.0.0.2".toList 4002) = some 0 ∧
    ∃ l d, Past sampleSecure l sampleDialled ∧ sampleDialled.Opened d ∧
      Curved l (List.replicate 32 1) (List.replicate 32 2) d (sampleDialled.obj d.sock).uuidHex := by
  have hpin : Past sampleSecure [(Node.init sampleSecure,
      .pinKey "10.0.0.2".toList 4002 (List.replicate 32 3))] samplePinned := .step (Env.calm 0) _ .init rfl
  have hdial : Past sampleSecure _ sampleDialled :=
    .step (Env.calm 0) (.command (.connect "10.0.0.2".toList 4002)) hpin (step_after _ (by decide +kernel))
  have hopen : (sampleDialled.obj 0).dealer.isSome = true := by decide +kernel
  obtain ⟨d, hd⟩ := Option.isSome_iff_exists.1 hopen
  have hrt : DecodesKeys sampleSecure.rt := by
    intro value key _ hkey
    cases hkey
  exact ⟨by decide +kernel, _, d, hdial, Or.inl ⟨0, hd⟩,
    (Past.encrypted rfl rfl hrt hdial).1 d (Or.inl ⟨0, hd⟩)⟩

theorem pinned_dialled : (sampleDialled.obj 0).dealer.isSome = true ∧
    sampleDialled.Holds "10.0.0.2".toList 4002 0
      (List.replicate 32 3, List.replicate 32 1, List.replicate 32 2) := by
  have hkeeps : samplePinned.KeepsPin "10.0.0.2".toList 4002 (List.replicate 32 3)
      (.command (.connect "10.0.0.2".toList 4002)) := by
    constructor
    · intro other ht
      cases ht
    · intro k ha
      cases ha
  have hrun : Follows (KeepsPin "10.0.0.2".toList 4002 (List.replicate 32 3)) samplePinned sampleDialled :=
    .single ⟨Env.calm 0, _, hkeeps, step_after _ (by decide +kernel)⟩
  exact ⟨by decide +kernel, (Reachable.pinned (Reachable.init sampleSecure) rfl rfl rfl hrun hrun).1⟩

/-- The event comes from the network, or is the queued CONNECT. -/
def Uncalled : Input → Prop
  | .peerMsg _ | .beacon _ _ | .gossip _ _ | .command (.connect _ _) => True
  | _ => False

/-- Somebody at the pinned address announces another key before the CONNECT is handled. -/
def sampleReplaced : Node :=
  samplePinned.after (Env.calm 0) (.beacon (beaconMagic ++ [beaconVersionV3] ++ sampleUuid ++ portBytes 4002 ++
    List.replicate 32 4) "10.0.0.2".toList)

/-- The node dials the pinned address with the key of a beacon. -/
theorem pin_replaced : ¬ ∀ (n : Node) (host : Str) (port : Int) (publicKey key pub sec : Bytes) (m : Node),
    n.Reachable → n.cfg.curvePublic = some pub → n.cfg.curveSecret = some sec →
    curveKeyRaw n.cfg.rt publicKey = some key →
    Follows (fun _ input => Uncalled input) (n.pinKey host port publicKey) m →
    m.Holds host port n.sockets (key, pub, sec) := by
  intro hall
  have hrun : Follows (fun _ input => Uncalled input) samplePinned sampleReplaced :=
    .single ⟨Env.calm 0, .beacon _ _, trivial, step_after _ (by decide +kernel)⟩
  have hholds := hall (Node.init sampleSecure) "10.0.0.2".toList 4002 (List.replicate 32 3)
    (List.replicate 32 3) (List.replicate 32 1) (List.replicate 32 2) sampleReplaced (.init _) rfl rfl rfl hrun
  have hopen : (sampleReplaced.obj 0).dealer.isSome = true := by decide +kernel
  obtain ⟨d, hd⟩ := Option.isSome_iff_exists.1 hopen
  have haddr : (sampleReplaced.obj 0).dealer.map Dealer.addr = some "10.0.0.2".toList := by decide +kernel
  have hport : (sampleReplaced.obj 0).dealer.map Dealer.port = some 4002 := by decide +kernel
  have hcurve : (sampleReplaced.obj 0).dealer.bind Dealer.curve =
      some (List.replicate 32 4, List.replicate 32 1, List.replicate 32 2) := by decide +kernel
  rw [hd] at haddr hport hcurve
  have hheld := hholds d (Or.inl ⟨0, hd⟩) (Nat.zero_le _) (Option.some.inj haddr) (Option.some.inj hport)
  rw [Option.bind_some, hheld] at hcurve
  simp at hcurve

end Node

end Zre
