import Zre.Proofs.Rounds

/-!
# Proofs: the acts that elections notice

Most acts leave the groups alone and say nothing about elections. `Stir` lists the others, each with
what is known of the act and the part of its handler that the elections see.
-/

namespace Zre

open Fallible

theorem Handed.not_election_of_is {h : Handed} {c : UInt8} (hc : h.Is c) (h1 : c ≠ Cmd.elect)
    (h2 : c ≠ Cmd.leader) : ¬ h.IsElection := by
  rintro (hx | hx) <;> unfold Handed.Is at hc hx <;> rw [hc] at hx
  · exact h1 (Option.some.inj hx)
  · exact h2 (Option.some.inj hx)

theorem Node.OwnHello.not_election {n : Node} {h : Handed} (ho : n.OwnHello h) : ¬ h.IsElection := by
  obtain ⟨seq, endpoint, frame, hf, henc⟩ := ho
  exact Handed.not_election_of_is
    (Handed.is_of_frames hf (Codec.encodeHello_cmd _ _ _ _ _ _ frame henc)) (by decide) (by decide)

namespace Node

/-! ## The event queue -/

/-- The queue after `l` was emitted. -/
def fill (q l : List Event) : List Event :=
  l.foldl (fun q e => if q.length < queueSize then q ++ [e] else q) q

theorem fill_append (q l l' : List Event) : fill q (l ++ l') = fill (fill q l) l' := List.foldl_append

/-- Events with the property `P` were emitted, and nothing else happened to the queue. -/
def Emits (P : Event → Prop) (n n' : Node) : Prop :=
  ∃ l, n'.events = n.events ++ l ∧ n'.queue = fill n.queue l ∧ ∀ e ∈ l, P e

section Emits

variable {P Q : Event → Prop} {n n' n'' : Node}

theorem Emits.of_eq (he : n'.events = n.events) (hq : n'.queue = n.queue) : Emits P n n' :=
  ⟨[], by simp [he], by simp [hq, fill], by simp⟩

theorem Emits.refl (n : Node) : Emits P n n := Emits.of_eq rfl rfl

theorem Emits.trans (h : Emits P n n') (h' : Emits P n' n'') : Emits P n n'' := by
  obtain ⟨l, he, hq, hl⟩ := h
  obtain ⟨l', he', hq', hl'⟩ := h'
  refine ⟨l ++ l', by rw [he', he, List.append_assoc], by rw [hq', hq, fill_append], fun e hm => ?_⟩
  exact (List.mem_append.1 hm).elim (hl e) (hl' e)

theorem Emits.mono (h : Emits P n n') (hPQ : ∀ e, P e → Q e) : Emits Q n n' := by
  obtain ⟨l, he, hq, hl⟩ := h
  exact ⟨l, he, hq, fun e hm => hPQ e (hl e hm)⟩

theorem emits_emit (n : Node) {e : Event} (he : P e) : Emits P n (n.emit e) :=
  ⟨[e], rfl, rfl, by simpa using he⟩

end Emits

/-! ## Stretches that elections do not notice -/

/-- The groups stay as they are, the known peers stay known, and nothing is said about elections. -/
structure Aside (n n' : Node) : Prop where
  cfg : n'.cfg = n.cfg
  groups : n'.groups = n.groups
  ownGroups : n'.ownGroups = n.ownGroups
  contestGroups : n'.contestGroups = n.contestGroups
  peers : ∀ k r, n.peers.get k = some r → n'.peers.get k = some r
  outbox : ∃ l, n'.outbox = n.outbox ++ l ∧ ∀ h ∈ l, ¬ h.IsElection
  emits : Emits (fun e => ¬ e.IsLeader) n n'

/-- Only the record-keeping has changed. -/
structure Prelude (n n' : Node) : Prop where
  rest : n' = { n with
    obj := n'.obj, evasiveEmitAt := n'.evasiveEmitAt, peerServerKeys := n'.peerServerKeys }
  keeps : ∀ r, (n.obj r).Keeps (n'.obj r)
  name : ∀ r, (n'.obj r).name = (n.obj r).name

section Aside

variable {n n' n'' : Node}

theorem Aside.refl (n : Node) : Aside n n :=
  ⟨rfl, rfl, rfl, rfl, fun _ _ => id, ⟨[], by simp⟩, Emits.refl n⟩

theorem Aside.trans (h : Aside n n') (h' : Aside n' n'') : Aside n n'' := by
  obtain ⟨l, ho, hl⟩ := h.outbox
  obtain ⟨l', ho', hl'⟩ := h'.outbox
  refine ⟨h'.cfg.trans h.cfg, h'.groups.trans h.groups, h'.ownGroups.trans h.ownGroups,
    h'.contestGroups.trans h.contestGroups, fun k r hk => h'.peers k r (h.peers k r hk),
    ⟨l ++ l', by rw [ho', ho, List.append_assoc], fun x hx => ?_⟩, h.emits.trans h'.emits⟩
  exact (List.mem_append.1 hx).elim (hl x) (hl' x)

/-- A change that the elections cannot see. -/
theorem Aside.of_rest (h : n' = { n with
      running := n'.running, headers := n'.headers, pending := n'.pending, obj := n'.obj
      nextRef := n'.nextRef, sockets := n'.sockets, status := n'.status, peers := n'.peers
      evasiveEmitAt := n'.evasiveEmitAt, peerServerKeys := n'.peerServerKeys })
    (hp : ∀ k r, n.peers.get k = some r → n'.peers.get k = some r) : Aside n n' := by
  rw [h]
  exact ⟨rfl, rfl, rfl, rfl, hp, ⟨[], by simp⟩, Emits.of_eq rfl rfl⟩

theorem Prelude.refl (n : Node) : Prelude n n :=
  ⟨rfl, fun _ => ⟨rfl, rfl, rfl, rfl, ⟨rfl, rfl⟩, rfl⟩, fun _ => rfl⟩

theorem Prelude.peers (h : Prelude n n') : n'.peers = n.peers := by rw [h.rest]

theorem Prelude.aside (h : Prelude n n') : Aside n n' := by
  refine Aside.of_rest ?_ fun k r hk => by rw [h.peers]; exact hk
  rw [h.rest]

theorem Prelude.tables (h : Prelude n n') (ht : Tables n) : Tables n' := by
  refine Tables.of_same ⟨h.aside.cfg, h.peers, ?_, ?_, fun g p => ?_, fun r _ => (h.keeps r).uuidHex,
    fun r _ => (h.keeps r).groups⟩ ht
  · rw [h.rest]
  · rw [h.rest]
  · unfold member
    rw [h.aside.groups]

theorem aside_emit (n : Node) {e : Event} (he : ¬ e.IsLeader) : Aside n (n.emit e) :=
  ⟨rfl, rfl, rfl, rfl, fun _ _ => id, ⟨[], by simp [emit]⟩, emits_emit n he⟩

theorem aside_setObj (n : Node) (r : Ref) (p : Peer) : Aside n (n.setObj r p) :=
  Aside.of_rest rfl fun _ _ => id

theorem aside_sendEncoded (env : Env) (n : Node) (r : Ref) {encode : Nat → Except PyError Bytes}
    {more : List Bytes}
    (hK : ∀ seq frame, encode seq = .ok frame → ∀ h : Handed, h.frames = frame :: more → ¬ h.IsElection) :
    Ensures (n.sendEncoded env r encode more) fun res => Aside n res.2 := by
  intro res hres
  obtain ⟨h, -⟩ | ⟨dealer, frame, -, -, hframe, h⟩ := sendEncoded_cases env n r encode more res hres
  · rw [h]
    exact Aside.refl n
  · rw [h]
    refine ⟨rfl, rfl, rfl, rfl, fun _ _ => id, ⟨_, rfl, ?_⟩, Emits.of_eq rfl rfl⟩
    simp only [List.mem_singleton, forall_eq]
    exact hK _ frame hframe _ rfl

theorem aside_sendCmd (env : Env) (n : Node) (r : Ref) {cmd : UInt8} (h1 : cmd ≠ Cmd.elect)
    (h2 : cmd ≠ Cmd.leader) (group : Option Bytes) (status : Option Nat) (more : List Bytes) :
    Ensures (n.sendCmd env r cmd group status more) (Aside n) :=
  (aside_sendEncoded env n r fun seq frame hf _ hh => Handed.not_election_of_is
    (Handed.is_of_frames hh (Codec.encodeSimple_cmd cmd seq group status frame hf)) h1 h2).bind
    fun _ h => Ensures.ok h

theorem aside_sendHello (env : Env) (n : Node) (r : Ref) : Ensures (n.sendHello env r) (Aside n) := by
  refine (aside_sendEncoded env n r fun seq frame hf h hh => ?_).bind fun _ h => Ensures.ok h
  obtain ⟨endpoint, -, henc⟩ := bind_eq_ok_iff.1 hf
  exact OwnHello.not_election (n := n) ⟨seq, endpoint, frame, hh, henc⟩

/-! ## Discovery -/

theorem aside_refreshPeer (env : Env) (n : Node) (r : Ref) : Aside n (n.refreshPeer env r) :=
  aside_setObj n r _

theorem aside_openPeer (env : Env) (n : Node) (uuidHex addr : Str) (port : Int) (rhex : Option Str) :
    Aside n (n.openPeer env uuidHex addr port rhex).2 := by
  rcases openPeer_cases env n uuidHex addr port rhex with h | ⟨p, -, -, h⟩ | ⟨curve, h⟩ <;> rw [h]
  · exact Aside.refl n
  · exact Aside.of_rest rfl fun _ _ => id
  · exact Aside.of_rest rfl fun _ _ => id

/-- Filing a peer under an id that is not known. -/
theorem aside_file (n : Node) {k : Str} (hk : n.peers.get k = none) (r : Ref) :
    Aside n { n with peers := n.peers.set k r } := by
  refine Aside.of_rest rfl fun j s hj => ?_
  show (n.peers.set k r).get j = some s
  rw [Dict.get_set_ne, hj]
  rintro rfl
  rw [hk] at hj
  cases hj

theorem aside_dialPeer {env : Env} {n n' : Node} {rhex addr : Str} {port : Int}
    (hk : n.peers.get rhex = none) {res : Option Ref} (h : n.dialPeer env rhex addr port = (res, n')) :
    Aside n n' := by
  have hopen := aside_openPeer env n rhex addr port (some rhex)
  have hk' : (n.openPeer env rhex addr port (some rhex)).2.peers = n.peers := by
    rcases openPeer_cases env n rhex addr port (some rhex) with h | ⟨p, -, -, h⟩ | ⟨curve, h⟩ <;>
      rw [h] <;> rfl
  unfold dialPeer at h
  generalize n.openPeer env rhex addr port (some rhex) = res' at h hopen hk'
  obtain ⟨o, m⟩ := res'
  cases o with
  | none =>
    cases h
    exact hopen
  | some r =>
    cases h
    exact hopen.trans (aside_file m (by rw [hk']; exact hk) r)

theorem aside_adoptPending {env : Env} {n n' : Node} {rhex addr : Str} {port : Int}
    (hk : n.peers.get rhex = none) {res : Option Ref}
    (h : n.adoptPending env addr port rhex = (res, n')) : Aside n n' := by
  cases res with
  | none =>
    obtain ⟨rfl, -⟩ := adoptPending_none h
    exact Aside.refl n'
  | some r =>
    obtain ⟨k, rfl, -⟩ := adoptPending_some h
    refine Aside.of_rest rfl fun j s hj => ?_
    show (n.peers.set rhex r).get j = some s
    rw [Dict.get_set_ne, hj]
    rintro rfl
    rw [hk] at hj
    cases hj

theorem aside_meetPeer (env : Env) {n : Node} {rhex : Str} (addr : Str) (port : Int)
    (hk : n.peers.get rhex = none) : Ensures (n.meetPeer env rhex addr port) (Aside n) := by
  unfold meetPeer
  cases ha : n.adoptPending env addr port rhex with
  | mk o n1 =>
    have h1 := aside_adoptPending hk ha
    cases o with
    | some r => exact (aside_sendHello env n1 r).mono fun _ h => h1.trans h
    | none =>
      obtain ⟨rfl, -⟩ := adoptPending_none ha
      simp only []
      cases hd : n1.dialPeer env rhex addr port with
      | mk o n2 =>
        have h2 := aside_dialPeer hk hd
        cases o with
        | some r => exact (aside_sendHello env n2 r).mono fun _ h => h2.trans h
        | none => exact Ensures.ok h2

theorem aside_doConnect (env : Env) (n : Node) (host : Str) (port : Int) :
    Ensures (n.doConnect env host port) (Aside n) := by
  have hopen := aside_openPeer env n (pendingKey host port) host port none
  unfold doConnect
  split
  · exact Ensures.ok (Aside.refl n)
  · split
    · exact Ensures.ok (Aside.refl n)
    · simp only []
      split
      · exact Ensures.ok (Aside.refl n)
      · generalize n.openPeer env (pendingKey host port) host port none = res at hopen ⊢
        obtain ⟨o, m⟩ := res
        cases o with
        | none => exact Ensures.ok hopen
        | some r =>
          have hpend : Aside m { m with pending := m.pending.set (pendingKey host port) r } :=
            Aside.of_rest rfl fun _ _ => id
          exact (aside_sendHello env _ _).mono fun _ h => (hopen.trans hpend).trans h

end Aside

/-! ## What the acts say -/

/-- The act is the message `msg` of the ready peer `k`. -/
def Receives (n : Node) (a : Act) (k : Str) (r : Ref) (msg : Msg) : Prop :=
  ∃ frames uuid extra, a = .input (.peerMsg frames) ∧ k = hex uuid ∧ Carries frames uuid msg extra ∧
    n.peers.get k = some r ∧ (n.obj r).ready = true

/-- The act gives up the peer `k`: its GOODBYE, its beacon with port 0, or its expiry. -/
def Departs (n : Node) (env : Env) (a : Act) (k : Str) (r : Ref) : Prop :=
  n.peers.get k = some r ∧
    ((∃ msg, n.Receives a k r msg ∧ msg.cmd = Cmd.goodbye) ∨
      (∃ data host uuid, a = .input (.beacon data host) ∧ k = hex uuid ∧ n.Hears data uuid 0) ∨
      (a = .round r ∧ (n.obj r).expiredAt ≠ 0 ∧ (n.obj r).expiredAt < env.now))

/-- The act is the LEAVE of the peer `k` from `g`. -/
def Leaves (n : Node) (a : Act) (k : Str) (r : Ref) (g : Bytes) : Prop :=
  ∃ msg status, n.Receives a k r msg ∧ msg.cmd = Cmd.leave ∧ msg.fields = .groupStatus g status

/-- The act is an ELECT of the peer `k` for the group `g`. -/
def Elects (n : Node) (a : Act) (k : Str) (r : Ref) (g id : Bytes) : Prop :=
  ∃ msg, n.Receives a k r msg ∧ msg.cmd = Cmd.elect ∧ msg.fields = .election g id

/-- The act is a LEADER of the peer `k` for the group `g`. -/
def Leads (n : Node) (a : Act) (k : Str) (r : Ref) (g id : Bytes) : Prop :=
  ∃ msg, n.Receives a k r msg ∧ msg.cmd = Cmd.leader ∧ msg.fields = .election g id

/-- The groups that a departing peer leaves, in the order in which they are looked at. -/
def gone (n : Node) (env : Env) (r : Ref) : List Bytes := env.order (n.obj r).groups

/-- What an act does to the elections. -/
inductive Stir (env : Env) (n : Node) (a : Act) (n' : Node) : Prop where
  | aside (h : Aside n n')
  | hello (k : Str) (r : Ref) (h : HelloFields) (epStr : Str) (helloReply : Bool) (n0 : Node)
      (h0 : Aside n n0) (hk : n0.peers.get k = some r)
      (hs : n0.enterPeer env k r h epStr helloReply = .ok n')
  | depart (k : Str) (r : Ref) (n0 : Node) (hd : n.Departs env a k r) (h0 : Prelude n n0)
      (hs : (n0.forgotten k r (n.gone env r)).restartElections env (n.gone env r) = .ok n')
  | join (k : Str) (r : Ref) (g : Bytes) (n0 : Node) (hk : n.peers.get k = some r) (h0 : Prelude n n0)
      (hs : n0.handleJoin env k r g = .ok n')
  | leave (k : Str) (r : Ref) (g : Bytes) (n0 : Node) (hl : n.Leaves a k r g) (h0 : Prelude n n0)
      (hs : n0.handleLeave env k r g = .ok n')
  | elect (k : Str) (r : Ref) (g id : Bytes) (n0 : Node) (he : n.Elects a k r g id) (h0 : Prelude n n0)
      (hs : n0.handleElect env r g id = .ok n')
  | leader (k : Str) (r : Ref) (g id : Bytes) (n0 : Node) (hl : n.Leads a k r g id) (h0 : Prelude n n0)
      (hs : n0.handleLeader env g id = .ok n')
  | maintain (ha : a = .maintain) (hs : n.maintainElections env = .ok n')
  | joinGroup (g : WireString) (ha : a = .input (.command (.join g))) (hs : n.joinGroup env g.raw = .ok n')
  | leaveGroup (g : WireString) (ha : a = .input (.command (.leave g)))
      (hs : n.leaveGroup env g.raw = .ok n')
  | contest (g : WireString) (ha : a = .input (.setContestInGroup g)) (hs : n' = n.setContestInGroup g)
  | recv (ha : a = .input .recv) (hs : n' = { n with queue := n.queue.tail })

section Stir

variable {n : Node}

theorem Receives.peer {a : Act} {k : Str} {r : Ref} {msg : Msg} (h : n.Receives a k r msg) :
    n.peers.get k = some r := by
  obtain ⟨-, -, -, -, -, -, hk, -⟩ := h
  exact hk

theorem prelude_setObj (n : Node) (r : Ref) {p : Peer} (h : (n.obj r).Keeps p)
    (hname : p.name = (n.obj r).name) : Prelude n (n.setObj r p) := by
  refine ⟨rfl, fun s => ?_, setObj_congr Peer.name n r hname⟩
  rw [setObj_obj]
  split
  · rename_i hs
    rw [hs]
    exact h
  · exact ⟨rfl, rfl, rfl, rfl, ⟨rfl, rfl⟩, rfl⟩

theorem Prelude.trans {n' n'' : Node} (h : Prelude n n') (h' : Prelude n' n'') : Prelude n n'' := by
  refine ⟨?_, fun r => ?_, fun r => (h'.name r).trans (h.name r)⟩
  · have hr := h'.rest
    rw [h.rest] at hr
    exact hr
  · obtain ⟨hu, hg, hd, hc, ha, hr⟩ := h.keeps r
    obtain ⟨hu', hg', hd', hc', ha', hr'⟩ := h'.keeps r
    exact ⟨hu'.trans hu, hg'.trans hg, hd'.trans hd, hc'.trans hc, ⟨ha'.1.trans ha.1, ha'.2.trans ha.2⟩,
      hr'.trans hr⟩

theorem prelude_refreshPeer (env : Env) (n : Node) (r : Ref) : Prelude n (n.refreshPeer env r) :=
  prelude_setObj n r (Peer.Keeps.refresh _ _ _ _) rfl

theorem prelude_checkSeq (n : Node) (r : Ref) (cmd : UInt8) (seq : Nat) :
    Prelude n (n.checkSeq r cmd seq) := by
  have hcount : Prelude n (n.setObj r ((n.obj r).countSeq cmd)) :=
    prelude_setObj n r (Peer.Keeps.countSeq _ _) rfl
  unfold checkSeq
  simp only []
  split
  · exact hcount.trans (prelude_setObj _ r ⟨rfl, rfl, rfl, rfl, ⟨rfl, rfl⟩, rfl⟩ rfl)
  · exact hcount

theorem prelude_evasive (n : Node) (d : Dict Str Int) : Prelude n { n with evasiveEmitAt := d } :=
  ⟨rfl, fun _ => ⟨rfl, rfl, rfl, rfl, ⟨rfl, rfl⟩, rfl⟩, fun _ => rfl⟩

theorem prelude_keys (n : Node) (keys : Dict Str Bytes) : Prelude n { n with peerServerKeys := keys } :=
  ⟨rfl, fun _ => ⟨rfl, rfl, rfl, rfl, ⟨rfl, rfl⟩, rfl⟩, fun _ => rfl⟩

theorem prelude_arrive (env : Env) (n : Node) (rhex : Str) (r : Ref) (msg : Msg) :
    Prelude n (n.arrive env rhex r msg) := by
  unfold arrive
  simp only []
  refine Prelude.trans ?_ ((prelude_checkSeq _ r msg.cmd msg.seq).trans (prelude_refreshPeer env _ r))
  split
  · exact prelude_evasive n _
  · exact Prelude.refl n

/-! ## Inbound messages -/

theorem helloFromNew_stirs (env : Env) (a : Act) {n1 : Node} (h1 : Aside n n1) {rhex : Str}
    (hk : n1.peers.get rhex = none) (hown : rhex ≠ n1.cfg.peerIdHex) (h : HelloFields) :
    Ensures (n1.helloFromNew env rhex h) (Stir env n a) := by
  obtain ⟨keys, hkeys⟩ := learnHelloKeys_rest n1 rhex h
  have h2 := h1.trans (prelude_keys n1 keys).aside
  unfold helloFromNew
  simp only [hkeys]
  split
  · exact Ensures.ok (.aside h2)
  · rename_i addr port _
    cases ha : { n1 with peerServerKeys := keys }.adoptPending env (dialHost addr) port rhex with
    | mk o m =>
      have hm := aside_adoptPending (n := { n1 with peerServerKeys := keys }) hk ha
      obtain ⟨-, -, hnone, hin⟩ := moves_adoptPending anything anything
        (n := { n1 with peerServerKeys := keys }) trivial hk hown ha
      cases o with
      | some r => exact fun n' hn' => .hello rhex r h _ false m (h2.trans hm) (hin r rfl) hn'
      | none =>
        cases hnone rfl
        simp only []
        cases hd : { n1 with peerServerKeys := keys }.dialPeer env rhex (dialHost addr) port with
        | mk o m' =>
          have hm' := aside_dialPeer (n := { n1 with peerServerKeys := keys }) hk hd
          obtain ⟨-, -, hin'⟩ := moves_dialPeer anything anything
            (n := { n1 with peerServerKeys := keys }) trivial hk hown hd
          cases o with
          | some r => exact fun n' hn' => .hello rhex r h _ true m' (h2.trans hm') (hin' r rfl) hn'
          | none => exact Ensures.ok (.aside (h2.trans hm'))

/-- The HELLO of somebody who is not ready enters it; any other HELLO is not noticed. -/
theorem handleHello_stirs (env : Env) (a : Act) {n1 : Node} (h1 : Aside n n1) (rhex : Str)
    (h : HelloFields) (existing : Option Ref) :
    Ensures (n1.handleHello env rhex h existing) (Stir env n a) := by
  unfold handleHello
  split
  · exact Ensures.ok (.aside h1)
  · split
    · split
      · exact Ensures.ok (.aside h1)
      · exact Ensures.error
    · rename_i hown
      split
      · exact Ensures.ok (.aside h1)
      · have h2 : Aside n { n1 with evasiveEmitAt := n1.evasiveEmitAt.pop rhex } :=
          h1.trans (prelude_evasive n1 _).aside
        simp only []
        split
        · refine Ensures.ok (.aside (h2.trans ?_))
          exact (aside_refreshPeer env _ _).trans (aside_setObj _ _ _)
        · split
          · rename_i hk
            exact helloFromNew_stirs env a h2 hk hown h
          · rename_i r hk
            exact fun n' hn' => .hello rhex r h _ false _ h2 hk hn'

/-- The message of a ready peer, by its command. -/
theorem dispatch_stirs (env : Env) (ht : Tables n) {a : Act} {k : Str} {r : Ref} {msg : Msg}
    (hr : n.Receives a k r msg) {n0 : Node} (h0 : Prelude n n0) (extra : List Bytes) :
    Ensures (n0.dispatch env k r msg extra) (Stir env n a) := by
  have hk0 : n0.peers.get k = some r := by
    rw [h0.peers]
    exact hr.peer
  have ht0 := h0.tables ht
  have hquiet : ∀ {e : Event}, ¬ e.IsLeader → Ensures (.ok (n0.emit e) : Except PyError Node) (Stir env n a) :=
    fun he => Ensures.ok (.aside (h0.aside.trans (aside_emit n0 he)))
  have hskip : Ensures (.ok n0 : Except PyError Node) (Stir env n a) := Ensures.ok (.aside h0.aside)
  unfold dispatch
  simp only []
  split
  · exact hquiet nofun
  · split
    · rename_i hcmd
      rw [removePeer_eq env (ht0.key k r hk0), (h0.keeps r).groups]
      exact fun n' hn' => .depart k r n0 ⟨hr.peer, Or.inl ⟨msg, hr, hcmd⟩⟩ h0 hn'
    · split
      · exact (aside_sendCmd env n0 r (by decide) (by decide) none none []).mono fun _ h =>
          .aside (h0.aside.trans h)
      · split
        · exact Ensures.ok (.aside (h0.aside.trans (aside_refreshPeer env n0 r)))
        · split
          · split
            · exact hquiet nofun
            · exact hskip
          · rename_i g status hfields
            split
            · exact fun n' hn' => .join k r g n0 hr.peer h0 hn'
            · split
              · rename_i hcmd
                exact fun n' hn' => .leave k r g n0 ⟨msg, status, hr, hcmd, hfields⟩ h0 hn'
              · exact hskip
          · rename_i g id hfields
            split
            · rename_i hcmd
              exact fun n' hn' => .elect k r g id n0 ⟨msg, hr, hcmd, hfields⟩ h0 hn'
            · split
              · rename_i hcmd
                exact fun n' hn' => .leader k r g id n0 ⟨msg, hr, hcmd, hfields⟩ h0 hn'
              · exact hskip
          · exact hskip

theorem handlePeerMsg_stirs (env : Env) (ht : Tables n) (frames : List Bytes) :
    Ensures (n.handlePeerMsg env frames) (Stir env n (.input (.peerMsg frames))) := by
  intro n' hn'
  rcases handlePeerMsg_cases env n frames n' hn' with
    rfl | ⟨uuid, msg, extra, hc, ⟨h, -, hh⟩ | ⟨-, r, hk, hr, hh⟩⟩
  · exact .aside (Aside.refl n')
  · have hreset : Prelude n (n.resetSeq (hex uuid)) := by
      unfold resetSeq
      cases n.peers.get (hex uuid) with
      | none => exact Prelude.refl n
      | some r => exact prelude_setObj n r ⟨rfl, rfl, rfl, rfl, ⟨rfl, rfl⟩, rfl⟩ rfl
    exact handleHello_stirs env _ hreset.aside (hex uuid) h _ n' hh
  · exact dispatch_stirs env ht ⟨frames, uuid, extra, rfl, rfl, hc, hk, hr⟩
      (prelude_arrive env n (hex uuid) r msg) extra n' hh

/-! ## Beacons, tuples and commands -/

theorem handleBeacon_stirs (env : Env) (data : Bytes) (host : Str) :
    Ensures (n.handleBeacon env data host) (Stir env n (.input (.beacon data host))) := by
  intro n' hn'
  rcases handleBeacon_cases env n data host n' hn' with rfl | ⟨uuid, port, hh, hacc⟩
  · exact .aside (Aside.refl n')
  · unfold acceptBeacon at hacc
    split at hacc
    · split at hacc <;> cases hacc
      exact .aside (Aside.refl _)
    · obtain ⟨keys, hkeys⟩ := learnBeaconKey_rest n (hex uuid) host port (n.beaconKey data)
      simp only [hkeys] at hacc
      have h0 := prelude_keys n keys
      split at hacc
      · rename_i hport
        cases hk : n.peers.get (hex uuid) with
        | none =>
          unfold beaconExit at hacc
          simp only [hk] at hacc
          cases hacc
          exact .aside h0.aside
        | some r =>
          rw [beaconExit_eq env (n := { n with peerServerKeys := keys }) hk] at hacc
          exact .depart (hex uuid) r _
            ⟨hk, Or.inr (Or.inl ⟨data, host, uuid, rfl, rfl, hport ▸ hh⟩)⟩ h0 hacc
      · split at hacc
        · cases hacc
          exact .aside (h0.aside.trans (aside_refreshPeer env _ _))
        · rename_i hk
          exact .aside (h0.aside.trans
            (aside_meetPeer env (n := { n with peerServerKeys := keys }) host port hk n' hacc))

theorem gossipRequire_stirs (env : Env) (a : Act) (uuidHex endpoint : Str) :
    Ensures (n.gossipRequire env uuidHex endpoint) (Stir env n a) := by
  unfold gossipRequire
  simp only []
  split
  · exact Ensures.ok (.aside (Aside.refl n))
  · split
    · exact Ensures.ok (.aside (Aside.refl n))
    · obtain ⟨keys, hkeys⟩ := learnTupleKey_rest n (n.cfg.rt.lower uuidHex) endpoint
      simp only [hkeys]
      have h0 := (prelude_keys n keys).aside
      split
      · exact Ensures.ok (.aside h0)
      · exact Ensures.error
      · split
        · exact Ensures.ok (.aside (h0.trans (aside_refreshPeer env _ _)))
        · rename_i hk
          exact (aside_meetPeer env (n := { n with peerServerKeys := keys }) _ _ hk).mono fun _ h =>
            .aside (h0.trans h)

theorem runCommand_stirs (env : Env) (c : Command) :
    Ensures (n.runCommand env c) (Stir env n (.input (.command c))) := by
  cases c with
  | join g => exact fun n' hn' => .joinGroup g rfl hn'
  | leave g => exact fun n' hn' => .leaveGroup g rfl hn'
  | connect host port => exact (aside_doConnect env n host port).mono fun _ h => .aside h
  | whisper peerHex payload =>
    have hany : Ensures (decodeStrict peerHex) fun _ => True := fun _ _ => trivial
    refine hany.bind fun peerId _ => ?_
    split
    · split
      · exact (aside_sendCmd env n _ (by decide) (by decide) none none [payload]).mono
          fun _ h => .aside h
      · exact Ensures.ok (.aside (Aside.refl n))
    · exact Ensures.ok (.aside (Aside.refl n))
  | shout g payload =>
    refine Ensures.mono (P := Aside n) ?_ fun _ h => .aside h
    unfold runCommand doShout
    simp only []
    split
    · refine Ensures.foldlM_rel Aside.refl (fun _ _ _ => Aside.trans) fun m r _ => ?_
      split
      · refine (aside_sendEncoded env m r fun seq frame hf _ hh => ?_).bind fun _ h => Ensures.ok h
        exact Handed.not_election_of_is (Handed.is_of_frames hh
          (Codec.encodeSimple_cmd Cmd.shout seq (some g.raw) none frame hf)) (by decide) (by decide)
      · exact Ensures.ok (Aside.refl m)
    · exact Ensures.ok (Aside.refl n)

/-! ## The reaper -/

theorem aside_dropDials (env : Env) (n : Node) : Aside n (n.dropDials env) := by
  have hloop : ∀ (es : List (Str × Ref)) (m : Node),
      Aside m (es.foldl (fun n e => n.reapPending env e) m) := by
    intro es
    induction es with
    | nil => exact Aside.refl
    | cons e es ih =>
      intro m
      refine Aside.trans ?_ (ih (m.reapPending env e))
      unfold reapPending
      simp only []
      split
      · exact Aside.of_rest rfl fun _ _ => id
      · exact Aside.refl m
  exact hloop _ n

theorem reapPeer_stirs (env : Env) (ht : Tables n) {k : Str} {r : Ref} (hk : n.peers.get k = some r) :
    Ensures (n.reapPeer env r) (Stir env n (.round r)) := by
  unfold reapPeer
  simp only []
  split
  · rename_i hexp
    rw [removePeer_eq env (ht.key k r hk)]
    exact fun n' hn' => .depart k r n ⟨hk, Or.inr (Or.inr ⟨rfl, hexp⟩)⟩ (Prelude.refl n) hn'
  · split
    · refine (aside_sendCmd env _ r (by decide) (by decide) none none []).bind fun n1 h1 =>
        Ensures.ok (.aside ?_)
      refine Aside.trans (Aside.trans ?_ h1) (aside_setObj n1 r _)
      split
      · exact (prelude_evasive n _).aside.trans (aside_emit _ (by simp [Event.IsLeader]))
      · exact Aside.refl n
    · exact Ensures.ok (.aside (Aside.refl n))

/-- What each act does to the elections. -/
theorem act_stirs (env : Env) (ht : Tables n) {a : Act} (ha : n.Enabled a) :
    Ensures (n.act env a) (Stir env n a) := by
  cases a with
  | dropDials => exact Ensures.ok (.aside (aside_dropDials env n))
  | maintain => exact fun n' hn' => .maintain rfl hn'
  | round r =>
    obtain ⟨k, hk⟩ := (Dict.mem_values _).1 ha
    exact reapPeer_stirs env ht hk
  | input input =>
    cases input with
    | peerMsg frames => exact handlePeerMsg_stirs env ht frames
    | beacon data host => exact handleBeacon_stirs env data host
    | gossip uuidHex endpoint => exact gossipRequire_stirs env _ uuidHex endpoint
    | command c => exact runCommand_stirs env c
    | reap => exact absurd rfl ha
    | setContestInGroup g => exact Ensures.ok (.contest g rfl rfl)
    | setHeader key value => exact Ensures.ok (.aside (Aside.of_rest rfl fun _ _ => id))
    | pinKey host port publicKey =>
      obtain ⟨keys, hkeys⟩ := learnKey_rest n (hostPort host port) publicKey
      refine Ensures.ok (.aside ?_)
      unfold pinKey
      rw [hkeys]
      exact (prelude_keys n keys).aside
    | recv => exact Ensures.ok (.recv rfl rfl)

end Stir

end Node

end Zre
