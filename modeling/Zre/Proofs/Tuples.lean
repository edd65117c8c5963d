import Zre.Proofs.HandlerLines
import Zre.Proofs.Crash

/-!
# Proofs: gossip tuples

What `_gossip_require` does with a tuple of arbitrary bytes. It raises on a value without a scheme, keeps the
key of a suffix whatever stands before it, and dials every endpoint that can be split. `FitsTuple` says when
none of this matters.
-/

namespace Zre

open Fallible

/-! ## Well-formed tuples -/

/-- A host name or an IPv4 address, or an IPv6 address in brackets. -/
def IsHost (host : Str) : Prop :=
  (host ≠ [] ∧ ∀ c ∈ host, c ∉ "[]:/|".toList) ∨
    ∃ inner, host = '[' :: inner ++ [']'] ∧ inner ≠ [] ∧ ∀ c ∈ inner, c ∉ "[]/|".toList

/-- The digits of a TCP port. -/
def IsPort (port : Str) : Prop :=
  (∀ c ∈ port, c.isDigit = true) ∧ 0 < Nat.ofDigitChars 10 port 0 ∧ Nat.ofDigitChars 10 port 0 < 65536

/-- The key in the suffix of an endpoint text. -/
def suffixKey (rt : Runtime) (text : Str) : Option Bytes :=
  if '|' ∈ text then Node.curveKeyRaw rt (encodeStr (partition '|' text).2) else none

/-- A TCP endpoint, with a key if it has a suffix. -/
def IsTcpTuple (rt : Runtime) (text : Str) : Prop :=
  (∃ host port, IsHost host ∧ IsPort port ∧
    (partition '|' text).1 = "tcp://".toList ++ host ++ ':' :: port) ∧
  ('|' ∈ text → (suffixKey rt text).isSome = true)

namespace Node

variable {env : Env} {n : Node}

/-- The tables are the same, and nothing was sent. -/
structure SameTables (n n' : Node) : Prop where
  peers : n'.peers = n.peers
  pending : n'.pending = n.pending
  keys : n'.peerServerKeys = n.peerServerKeys
  outbox : n'.outbox = n.outbox

/-- The tuple is taken without an exception, and leaves nothing behind when it is not well formed. -/
def TakesTuple (env : Env) (n : Node) (key value : Bytes) : Prop :=
  ∃ n', n.gossipRequire env (bdec key) (bdec value) = .ok n' ∧
    (¬ IsTcpTuple n.cfg.rt (bdec value) → n.SameTables n')

/-- Meeting the peer needs a well-formed tuple, wherever it comes about, and a HELLO that can be sent. -/
def FitsMeeting (env : Env) (n : Node) (wellFormed : Prop) (id addr : Str) (port : Int) : Prop :=
  (∀ k r, n.pendingMatch addr port id = some (k, r) →
    wellFormed ∧ ((n.obj r).connected = true → n.CanGreet env (n.obj r).addr)) ∧
  (n.pendingMatch addr port id = none → n.CanDial env id addr port →
    wellFormed ∧ n.CanGreet env addr)

/-- A tuple of another node has a scheme. If it is not well formed, it carries no key that is new for its
peer, and the node does not come to adopt or dial it. A HELLO that it calls for can be sent. -/
def FitsTuple (env : Env) (n : Node) (key value : Bytes) : Prop :=
  n.cfg.rt.lower (bdec key) ≠ n.cfg.peerIdHex →
    afterScheme (partition '|' (bdec value)).1 ≠ none ∧
    (¬ IsTcpTuple n.cfg.rt (bdec value) → ∀ k, suffixKey n.cfg.rt (bdec value) = some k →
      n.peerServerKeys.get (n.cfg.rt.lower (bdec key)) = some k) ∧
    ∀ addr port, splitEndpoint n.cfg.rt (partition '|' (bdec value)).1 = .ok (addr, port) →
      n.peers.get (n.cfg.rt.lower (bdec key)) = none →
      (n.remember (n.cfg.rt.lower (bdec key)) (suffixKey n.cfg.rt (bdec value))).FitsMeeting env
        (IsTcpTuple n.cfg.rt (bdec value)) (n.cfg.rt.lower (bdec key)) addr port

/-! ## Splitting -/

/-- `_split_endpoint` raises an `IndexError` without a scheme, and a `ValueError` otherwise. -/
theorem splitEndpoint_error {rt : Runtime} {ep : Str} {e : PyError} (h : splitEndpoint rt ep = .error e) :
    (afterScheme ep = none ∧ e = .indexError) ∨ (afterScheme ep ≠ none ∧ e = .valueError) := by
  have hint : ∀ s e, pyInt rt s = .error e → e = .valueError := by
    intro s e hs
    unfold pyInt at hs
    simp only [] at hs
    split at hs
    · cases hs
      rfl
    · split at hs
      · cases hs
        rfl
      · cases hs
  unfold splitEndpoint at h
  split at h
  · cases h
    exact Or.inl ⟨by assumption, rfl⟩
  · rename_i heq
    refine Or.inr ⟨by simp [heq], ?_⟩
    rcases bind_eq_error_iff.1 h with herr | ⟨_, _, h⟩
    · exact hint _ e herr
    · cases h
  · rename_i heq
    refine Or.inr ⟨by simp [heq], ?_⟩
    rcases bind_eq_error_iff.1 h with herr | ⟨_, _, h⟩
    · exact hint _ e herr
    · cases h

/-! ## Keys -/

theorem learnTuple_eq (n : Node) (id text : Str) :
    (if '|' ∈ text then n.learnKey id (encodeStr (partition '|' text).2) else n) =
      n.remember id (suffixKey n.cfg.rt text) := by
  unfold suffixKey
  split
  · exact learnKey_eq n id _
  · rfl

/-- Remembering a key changes nothing exactly when it is the one that is stored. -/
theorem remember_keys_iff (n : Node) (id : Str) (key : Option Bytes) :
    (n.remember id key).peerServerKeys = n.peerServerKeys ↔
      ∀ k, key = some k → n.peerServerKeys.get id = some k := by
  cases key with
  | none => exact iff_of_true rfl (by simp)
  | some key =>
    simp only [remember, Option.some.injEq, forall_eq']
    constructor
    · intro h
      rw [← h, Dict.get_set_self]
    · exact Dict.set_eq_self _

theorem remember_rest (n : Node) (id : Str) (key : Option Bytes) :
    ∃ keys, n.remember id key = { n with peerServerKeys := keys } := by
  cases key with
  | none => exact ⟨n.peerServerKeys, rfl⟩
  | some key => exact ⟨_, rfl⟩

/-! ## Meeting -/

/-- A greeting goes out exactly when it can be encoded, or its receiver has no socket. -/
theorem sendHello_returns_iff (hb : Books n) (hl : Links n) (r : Ref) :
    (∃ n', n.sendHello env r = .ok n') ↔
      ((n.obj r).connected = true → n.CanGreet env (n.obj r).addr) := by
  cases hc : (n.obj r).connected with
  | false =>
    refine iff_of_true ⟨n, ?_⟩ (by simp)
    rw [sendHello, sendEncoded_idle env hc]
    rfl
  | true =>
    simp only [forall_const]
    constructor
    · rintro ⟨n', h⟩
      by_contra hgreet
      obtain ⟨e, -, he⟩ := sendHello_raises hb hl hc hgreet
      rw [h] at he
      cases he
    · exact sendHello_returns hb

theorem sendHello_peers {n' : Node} {r : Ref} (h : n.sendHello env r = .ok n') : n'.peers = n.peers := by
  rw [(talk_sendHello env n r n' h).rest]

/-- A dial that fails leaves the tables alone. -/
theorem dialPeer_none {n' : Node} {id addr : Str} {port : Int}
    (h : n.dialPeer env id addr port = (none, n')) : n.SameTables n' := by
  unfold dialPeer at h
  rcases openPeer_cases env n id addr port (some id) with hopen | ⟨p, -, -, hopen⟩ | ⟨curve, hopen⟩ <;>
    rw [hopen] at h <;> cases h
  · exact ⟨rfl, rfl, rfl, rfl⟩
  · exact ⟨rfl, rfl, rfl, rfl⟩

/-- A peer that was met is in the table, which it was not before. -/
theorem not_sameTables {n' : Node} {id : Str} {r : Ref} (hk : n.peers.get id = none)
    (hr : n'.peers.get id = some r) : ¬ n.SameTables n' := by
  intro h
  rw [h.peers, hk] at hr
  cases hr

/-- Meeting a peer under an id that is not in the table. -/
theorem meetPeer_iff (hb : Books n) (hl : Links n) {id : Str} (hk : n.peers.get id = none)
    (hown : id ≠ n.cfg.peerIdHex) (wellFormed : Prop) (addr : Str) (port : Int) :
    (∃ n', n.meetPeer env id addr port = .ok n' ∧ (¬ wellFormed → n.SameTables n')) ↔
      n.FitsMeeting env wellFormed id addr port := by
  -- what follows a meeting: the HELLO decides, and the table has changed
  have hgreet : ∀ (m : Node) (r : Ref), Books m → Links m → m.peers.get id = some r →
      ((∃ n', m.sendHello env r = .ok n' ∧ (¬ wellFormed → n.SameTables n')) ↔
        wellFormed ∧ ((m.obj r).connected = true → m.CanGreet env (m.obj r).addr)) := by
    intro m r hbm hlm hr
    rw [← sendHello_returns_iff hbm hlm]
    constructor
    · rintro ⟨n', h, hsame⟩
      have hr' : n'.peers.get id = some r := by rw [sendHello_peers h]; exact hr
      exact ⟨by_contra fun hwf => not_sameTables hk hr' (hsame hwf), n', h⟩
    · rintro ⟨hwf, n', h⟩
      exact ⟨n', h, fun h => absurd hwf h⟩
  unfold meetPeer
  cases ha : n.adoptPending env addr port id with
  | mk o n1 =>
    cases o with
    | some r =>
      obtain ⟨k, rfl, hmatch⟩ := adoptPending_some ha
      have hm : Moves anything anything n (n.adoptUnder env k r id) :=
        (moves_adoptPending _ _ trivial hk hown ha).1
      have hobj : ((n.adoptUnder env k r id).obj r).connected = (n.obj r).connected ∧
          ((n.adoptUnder env k r id).obj r).addr = (n.obj r).addr := by
        simp [adoptUnder, Peer.refresh]
      refine (hgreet _ r (hm.invariant Books.move hb) (hm.invariant Links.move hl)
        (adoptUnder_peers env n k r id)).trans ?_
      have hcan : (n.adoptUnder env k r id).CanGreet env (n.obj r).addr ↔
          n.CanGreet env (n.obj r).addr := CanGreet.congr env rfl rfl rfl _
      unfold FitsMeeting
      rw [hobj.1, hobj.2, hcan, hmatch]
      simp
    | none =>
      obtain ⟨rfl, hmatch⟩ := adoptPending_none ha
      unfold FitsMeeting
      rw [hmatch, ← dialPeer_isSome]
      simp only [reduceCtorEq, false_implies, implies_true, true_and, forall_const]
      cases hd : n1.dialPeer env id addr port with
      | mk o n2 =>
        cases o with
        | none => exact iff_of_true ⟨n2, rfl, fun _ => dialPeer_none hd⟩ (by simp)
        | some r =>
          obtain ⟨hm, -, hin⟩ := moves_dialPeer anything anything trivial hk hown hd
          obtain ⟨hcfg, ho, hh, haddr, hc⟩ := dialPeer_some hd
          refine (hgreet n2 r (hm.invariant Books.move hb) (hm.invariant Links.move hl) (hin r rfl)).trans ?_
          rw [hc, haddr, CanGreet.congr env hcfg ho hh]
          simp

/-- Meeting a peer teaches the node no key. -/
theorem meetPeer_keys (env : Env) (n : Node) (id addr : Str) (port : Int) :
    Ensures (n.meetPeer env id addr port) fun n' => n'.peerServerKeys = n.peerServerKeys := by
  have hgreet : ∀ (m : Node) (r : Ref), m.peerServerKeys = n.peerServerKeys →
      Ensures (m.sendHello env r) fun n' => n'.peerServerKeys = n.peerServerKeys := by
    intro m r hm n' h
    rw [(talk_sendHello env m r n' h).rest]
    exact hm
  unfold meetPeer
  cases ha : n.adoptPending env addr port id with
  | mk o n1 =>
    cases o with
    | some r =>
      obtain ⟨k, rfl, -⟩ := adoptPending_some ha
      exact hgreet _ r rfl
    | none =>
      obtain ⟨rfl, -⟩ := adoptPending_none ha
      simp only []
      cases hd : n1.dialPeer env id addr port with
      | mk o n2 =>
        cases o with
        | none => exact Ensures.ok (dialPeer_none hd).keys
        | some r =>
          refine hgreet n2 r ?_
          unfold dialPeer at hd
          cases hopen : n1.openPeer env id addr port (some id) with
          | mk o m =>
            rw [hopen] at hd
            cases o with
            | none => cases hd
            | some s =>
              cases hd
              obtain ⟨-, curve, rfl⟩ := openPeer_some hopen
              rfl

/-! ## Taking a tuple -/

/-- A tuple of another node: its key is remembered, then its endpoint is split. -/
theorem gossipRequire_foreign (hrun : n.running = true) {uuidHex : Str}
    (hown : n.cfg.rt.lower uuidHex ≠ n.cfg.peerIdHex) (text : Str) :
    n.gossipRequire env uuidHex text =
      match splitEndpoint n.cfg.rt (partition '|' text).1 with
      | .error .valueError => .ok (n.remember (n.cfg.rt.lower uuidHex) (suffixKey n.cfg.rt text))
      | .error e => .error e
      | .ok (addr, port) =>
        match n.peers.get (n.cfg.rt.lower uuidHex) with
        | some r =>
          .ok ((n.remember (n.cfg.rt.lower uuidHex) (suffixKey n.cfg.rt text)).refreshPeer env r)
        | none => (n.remember (n.cfg.rt.lower uuidHex) (suffixKey n.cfg.rt text)).meetPeer env
            (n.cfg.rt.lower uuidHex) addr port := by
  obtain ⟨keys, hkeys⟩ := remember_rest n (n.cfg.rt.lower uuidHex) (suffixKey n.cfg.rt text)
  unfold gossipRequire
  rw [if_neg (by simp [hrun]), if_neg hown]
  cases hs : splitEndpoint n.cfg.rt (partition '|' text).1 with
  | error e => cases e <;> simp only [learnTuple_eq, hkeys, hs]
  | ok target => cases hk : n.peers.get (n.cfg.rt.lower uuidHex) <;> simp only [learnTuple_eq, hkeys, hs, hk]

/-- Only the keys have to be compared when the tuple is not acted on. -/
theorem sameTables_remember (n : Node) (id : Str) (key : Option Bytes) {n' : Node}
    (hp : n'.peers = n.peers) (hq : n'.pending = n.pending) (ho : n'.outbox = n.outbox)
    (hk : n'.peerServerKeys = (n.remember id key).peerServerKeys) :
    n.SameTables n' ↔ ∀ k, key = some k → n.peerServerKeys.get id = some k := by
  rw [← remember_keys_iff, ← hk]
  exact ⟨fun h => h.keys, fun h => ⟨hp, hq, h, ho⟩⟩

/-- In every reachable state a tuple of arbitrary bytes is taken as it should be exactly when it fits. -/
theorem Reachable.takesTuple_iff (hn : n.Reachable) (env : Env) (key value : Bytes) :
    n.TakesTuple env key value ↔ n.FitsTuple env key value := by
  unfold TakesTuple FitsTuple
  by_cases hown : n.cfg.rt.lower (bdec key) = n.cfg.peerIdHex
  · refine iff_of_true ⟨n, ?_, fun _ => ⟨rfl, rfl, rfl, rfl⟩⟩ (fun h => absurd hown h)
    unfold gossipRequire
    rw [if_neg (by simp [hn.running]), if_pos hown]
  rw [gossipRequire_foreign hn.running hown]
  obtain ⟨keys, hkeys⟩ :=
    remember_rest n (n.cfg.rt.lower (bdec key)) (suffixKey n.cfg.rt (bdec value))
  have hsame := fun n' => @sameTables_remember n (n.cfg.rt.lower (bdec key))
    (suffixKey n.cfg.rt (bdec value)) n'
  generalize n.cfg.rt.lower (bdec key) = id at *
  generalize suffixKey n.cfg.rt (bdec value) = sk at *
  simp only [ne_eq, hown, not_false_eq_true, forall_const]
  cases hs : splitEndpoint n.cfg.rt (partition '|' (bdec value)).1 with
  | error e =>
    rcases splitEndpoint_error hs with ⟨hscheme, rfl⟩ | ⟨hscheme, rfl⟩
    · simp [hscheme]
    · have hm := hsame (n.remember id sk) (by rw [hkeys]) (by rw [hkeys]) (by rw [hkeys]) rfl
      simp [hscheme, hm]
  | ok res =>
    obtain ⟨addr, port⟩ := res
    have hscheme : afterScheme (partition '|' (bdec value)).1 ≠ none := by
      intro hnone
      simp only [splitEndpoint, hnone] at hs
      cases hs
    cases hk : n.peers.get id with
    | some r =>
      have hm := hsame ((n.remember id sk).refreshPeer env r) (by rw [hkeys]; rfl) (by rw [hkeys]; rfl)
        (by rw [hkeys]; rfl) rfl
      simp [hscheme, hm]
    | none =>
      have hm0 : Moves anything anything n (n.remember id sk) := by
        rw [hkeys]
        exact moves_quiet rfl
      have hk0 : (n.remember id sk).peers.get id = none := by rw [hkeys]; exact hk
      have hown0 : id ≠ (n.remember id sk).cfg.peerIdHex := by rw [hkeys]; exact hown
      have hmeet := @meetPeer_iff env _ (hm0.invariant Books.move hn.books)
        (hm0.invariant Links.move hn.links) _ hk0 hown0 (IsTcpTuple n.cfg.rt (bdec value)) addr port
      have hkept := meetPeer_keys env (n.remember id sk) id addr port
      have hfits : (∀ addr' port', Except.ok (addr, port) = (Except.ok (addr', port') : Except PyError _) →
          (n.remember id sk).FitsMeeting env (IsTcpTuple n.cfg.rt (bdec value)) id addr' port') ↔
          (n.remember id sk).FitsMeeting env (IsTcpTuple n.cfg.rt (bdec value)) id addr port := by
        constructor
        · intro h
          exact h addr port rfl
        · rintro h _ _ ⟨⟩
          exact h
      simp only [hscheme, not_false_eq_true, true_and, forall_const, hfits, ← hmeet]
      constructor
      · rintro ⟨n', hn', htables⟩
        refine ⟨fun hwf => ?_, n', hn', fun hwf => ?_⟩
        · rw [← remember_keys_iff, ← hkept n' hn']
          exact (htables hwf).keys
        · obtain ⟨hp, hq, -, ho⟩ := htables hwf
          exact ⟨by rw [hp, hkeys], by rw [hq, hkeys], hkept n' hn', by rw [ho, hkeys]⟩
      · rintro ⟨hknown, n', hn', htables⟩
        refine ⟨n', hn', fun hwf => ?_⟩
        obtain ⟨hp, hq, hkeep, ho⟩ := htables hwf
        exact (hsame n' (by rw [hp, hkeys]) (by rw [hq, hkeys]) (by rw [ho, hkeys]) hkeep).2 (hknown hwf)

/-- A well-formed tuple of the peer `00…02`. -/
theorem takesTuple_sample : sampleA.TakesTuple (Env.calm 0) (encodeStr (hex sampleUuid))
    (encodeStr "tcp://10.0.0.2:4002".toList) := by
  have hhost : "10.0.0.2".toList.all (fun c => decide (c ∉ "[]:/|".toList)) = true := by decide +kernel
  have hdigits : "4002".toList.all Char.isDigit = true := by decide +kernel
  have hwf : IsTcpTuple sampleA.cfg.rt (bdec (encodeStr "tcp://10.0.0.2:4002".toList)) := by
    refine ⟨⟨"10.0.0.2".toList, "4002".toList, Or.inl ⟨List.cons_ne_nil _ _, fun c hc => ?_⟩,
      ⟨List.all_eq_true.1 hdigits, by decide +kernel, by decide +kernel⟩, by decide +kernel⟩,
      fun h => absurd h (by decide +kernel)⟩
    exact of_decide_eq_true (List.all_eq_true.1 hhost c hc)
  have hgreet : ∀ addr, sampleA.CanGreet (Env.calm 0) addr := fun addr => by
    have hep : sampleA.publicEndpointFor (Env.calm 0) addr =
        .ok (encodeStr (tcpAddress "127.0.0.1".toList 4001)) := rfl
    exact ⟨⟨_, hep, by decide +kernel⟩, by decide, by decide⟩
  obtain ⟨keys, hkeys⟩ := remember_rest sampleA
    (sampleA.cfg.rt.lower (bdec (encodeStr (hex sampleUuid))))
    (suffixKey sampleA.cfg.rt (bdec (encodeStr "tcp://10.0.0.2:4002".toList)))
  have hn : sampleA.Reachable := .init sampleA.cfg
  refine (hn.takesTuple_iff (Env.calm 0) _ _).2 fun _ => ⟨by decide +kernel,
    fun h => absurd hwf h, fun addr port _ _ => ?_⟩
  rw [hkeys]
  refine ⟨fun k r hmatch => ?_, fun _ _ => ⟨hwf, ?_⟩⟩
  · cases hmatch
  · exact (CanGreet.congr (Env.calm 0) (n := sampleA) rfl rfl rfl addr).2 (hgreet addr)

/-- A value without a scheme ends the run loop. -/
theorem not_takesTuple : ¬ ∀ n : Node, n.Reachable → ∀ (env : Env) (key value : Bytes),
    n.TakesTuple env key value := by
  intro hall
  obtain ⟨n', h, -⟩ := hall sampleA (.init sampleA.cfg) (Env.calm 0) (encodeStr (hex sampleUuid))
    (encodeStr "10.0.0.2:4002".toList)
  have hraised : raised (sampleA.gossipRequire (Env.calm 0) (bdec (encodeStr (hex sampleUuid)))
      (bdec (encodeStr "10.0.0.2:4002".toList))) = some .indexError := by decide +kernel
  rw [h] at hraised
  cases hraised

end Node

end Zre
